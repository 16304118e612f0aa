import CppGo.Netio.SelectRelease

/-!
# `Poll` of `SelectIoWait` keeps the owner of a `NetFD` after a timeout

`EpollIoWait::Poll` clears `owner_task` before it looks at the timer, and
`SelectIoWait::Poll` after it.
-/

namespace CppGo.Netio

open CppGo.Lib CppGo.Lib.Machine

namespace SelectIoWait

variable {s t : SelectIoWait} {n : Nat}

/-- Every `NetFD` that no task is in `Poll` with has been let go, and the next `Poll` ends
the process only for a `NetFD` that another task is in `Poll` with. -/
structure Released (s : SelectIoWait) : Prop where
  owner : ∀ n, ¬ s.inPoll n → (s.netFd n).owner_task = none
  unmapped : ∀ n, ¬ s.inPoll n → n ∉ s.fd_map.values
  next : ∀ task n events timeout t, s.step (.poll n task events timeout) = some t →
    t.ended ≠ none → ∃ other c, other ≠ task ∧ s.calls other = some c ∧ c.netFd = n

def Owned (s : SelectIoWait) : Prop := ∀ n, (s.netFd n).owner_task ≠ none → s.inPoll n

theorem Linked.released_iff (h : s.Linked) : s.Released ↔ s.Owned := by
  constructor
  · intro hreleased n howner
    by_contra hout
    exact howner (hreleased.owner n hout)
  · intro howned
    refine ⟨fun n hout => ?_, fun n hout hin => hout (h.mapped n hin), ?_⟩
    · by_contra howner
      exact hout (howned n howner)
    · intro task n events timeout t hs hended
      obtain ⟨hlive, hstep⟩ := step_cases hs
      obtain ⟨n', task', events', timeout', heq, hcall, rfl⟩ | ⟨_, heq, _⟩ | ⟨_, heq, _⟩ |
        ⟨_, heq, _⟩ | ⟨_, _, heq, _⟩ := hstep
      · cases heq
        obtain ⟨howner, -⟩ | ⟨-, heq⟩ | ⟨-, -, heq⟩ := s.poll_cases n task events timeout
        · obtain ⟨other, c, hc, hnet⟩ := howned n howner
          refine ⟨other, c, ?_, hc, hnet⟩
          rintro rfl
          rw [hcall] at hc
          cases hc
        · rw [heq] at hended
          exact absurd hlive hended
        · rw [heq] at hended
          exact absurd hlive hended
      all_goals cases heq

/-! ## What a step does to the owners -/

theorem owned_congr (hcalls : t.calls = s.calls)
    (howner : ∀ m, (t.netFd m).owner_task = (s.netFd m).owner_task) : t.Owned ↔ s.Owned := by
  simp only [Owned, inPoll, hcalls, howner]

theorem Taken.owned_iff (h : Taken s t n) : t.Owned ↔ s.Owned :=
  owned_congr h.calls h.owner

theorem Linked.visit_owned (h : s.Linked) {ready : Ready} {itr : Node Int Nat}
    (hitr : itr ∈ s.fd_map.nodes) : (SelectIoWait.visit ready s itr).Owned ↔ s.Owned := by
  have hset : ∀ r : BitVec 16,
      (s.setNetFd itr.value { s.netFd itr.value with revents := r }).Owned ↔ s.Owned := by
    intro r
    apply owned_congr
    · rfl
    · intro m
      by_cases hm : m = itr.value
      · rw [hm, setNetFd_self]
      · rw [setNetFd_of_ne hm]
  unfold SelectIoWait.visit
  dsimp only
  split
  · have hlinked : (s.setNetFd itr.value { s.netFd itr.value with
        revents := toShort (s.reventsOf ready itr.value) }).Linked := h.setNetFd rfl rfl rfl
    exact (hlinked.wake hitr).1.owned_iff.trans (hset _)
  · exact hset _

theorem Linked.waitLoop_owned (h : s.Linked) (ready : Ready) :
    (s.waitLoop ready).Owned ↔ s.Owned := by
  unfold SelectIoWait.waitLoop
  split
  · exact Iff.rfl
  · have hloop : (s.fd_map.nodes.foldl (SelectIoWait.visit ready) s).Linked ∧
        ((s.fd_map.nodes.foldl (SelectIoWait.visit ready) s).Owned ↔ s.Owned) := by
      apply foldl_visit (I := fun t => t.Linked ∧ (t.Owned ↔ s.Owned))
      · intro t itr ⟨hlinked, howned⟩ hitr
        exact ⟨hlinked.visit hitr, (hlinked.visit_owned hitr).trans howned⟩
      · exact ⟨h, Iff.rfl⟩
      · exact s.fd_map.nodup
      · exact fun _ hitr => hitr
    exact hloop.2

theorem register_owned {task : Nat} {events : BitVec 32} {timeout : Int}
    (howner : (s.netFd n).owner_task = none) (hcall : s.calls task = none) :
    (s.register n task events timeout).Owned ↔ s.Owned := by
  have hin : ∀ m, (s.register n task events timeout).inPoll m ↔ m = n ∨ s.inPoll m := by
    intro m
    constructor
    · rintro ⟨u, c, hc, hnet⟩
      rw [register_calls] at hc
      split at hc
      · cases hc
        exact .inl hnet.symm
      · exact .inr ⟨u, c, hc, hnet⟩
    · rintro (rfl | ⟨u, c, hc, hnet⟩)
      · exact ⟨task, _, (register_calls task).trans (if_pos rfl), rfl⟩
      · refine ⟨u, c, ?_, hnet⟩
        rw [register_calls, if_neg ?_]
        · exact hc
        · rintro rfl
          rw [hcall] at hc
          cases hc
  constructor
  · intro howned m hm
    have hmn : m ≠ n := by
      rintro rfl
      exact hm howner
    have hm' : ((s.register n task events timeout).netFd m).owner_task ≠ none := by
      rw [register_owner, if_neg hmn]
      exact hm
    exact ((hin m).mp (howned m hm')).resolve_left hmn
  · intro howned m hm
    rw [hin]
    rw [register_owner] at hm
    split at hm
    · exact .inl ‹_›
    · exact .inr (howned m hm)

theorem Linked.pollReturn_owned (h : s.Linked) {task : Nat} {c : PollCall}
    (hc : s.calls task = some c) : (s.pollReturn task c).Owned ↔ s.Owned ∧ ¬ s.TimedOut c := by
  have hcalls : ∀ u, (s.pollReturn task c).calls u = if u = task then none else s.calls u := by
    intro u
    rw [pollReturn_frame.2.1]
    exact Function.update_apply _ _ _ _
  have hin : ∀ m, (s.pollReturn task c).inPoll m ↔ m ≠ c.netFd ∧ s.inPoll m := by
    intro m
    constructor
    · rintro ⟨u, d, hd, hnet⟩
      rw [hcalls] at hd
      split at hd
      · cases hd
      · rename_i hu
        refine ⟨?_, u, d, hd, hnet⟩
        rintro rfl
        exact hu (h.eq_of_netFd hd hc hnet)
    · rintro ⟨hm, u, d, hd, hnet⟩
      refine ⟨u, d, ?_, hnet⟩
      rw [hcalls, if_neg ?_]
      · exact hd
      · rintro rfl
        rw [hc] at hd
        cases hd
        exact hm hnet.symm
  have howner : (s.netFd c.netFd).owner_task = some task := h.called task c hc
  constructor
  · intro howned
    constructor
    · intro m hm
      by_cases hmc : m = c.netFd
      · exact ⟨task, c, hc, hmc.symm⟩
      · rw [← @pollReturn_netFd_of_ne s task c m hmc] at hm
        exact ((hin m).mp (howned m hm)).2
    · intro htimed
      apply ((hin c.netFd).mp (howned c.netFd ?_)).1 rfl
      rw [pollReturn_netFd_self, if_pos htimed]
      simp [howner]
  · rintro ⟨howned, htimed⟩ m hm
    by_cases hmc : m = c.netFd
    · rw [hmc, pollReturn_netFd_self, if_neg htimed] at hm
      exact absurd rfl hm
    · rw [pollReturn_netFd_of_ne hmc] at hm
      exact (hin m).mpr ⟨hmc, howned m hm⟩

/-! ## Every run -/

def Untimed (s : SelectIoWait) : SelectEvent → Prop
  | .pollReturn task => ∀ c ∈ s.calls task, ¬ s.TimedOut c
  | _ => True

instance : ∀ (s : SelectIoWait) (a : SelectEvent), Decidable (s.Untimed a)
  | s, .pollReturn task => inferInstanceAs (Decidable (∀ c ∈ s.calls task, ¬ s.TimedOut c))
  | _, .poll .. | _, .waitLoop _ | _, .selectError _ | _, .timeout _ => .isTrue trivial

theorem Linked.owned_step (h : s.Linked) {a : SelectEvent} (hs : s.step a = some t) :
    t.Owned ↔ s.Owned ∧ s.Untimed a := by
  obtain ⟨hlive, ⟨n, task, events, timeout, rfl, hcall, rfl⟩ | ⟨ready, rfl, -, rfl⟩ |
    ⟨errno, rfl, rfl⟩ | ⟨n, rfl, htimer, rfl⟩ | ⟨task, c, rfl, hc, htask, rfl⟩⟩ := step_cases hs
  · simp only [Untimed, and_true]
    obtain ⟨-, heq⟩ | ⟨-, heq⟩ | ⟨howner, -, heq⟩ := s.poll_cases n task events timeout
    · rw [heq]
      exact Iff.rfl
    · rw [heq]
    · rw [heq]
      exact register_owned howner hcall
  · simp only [Untimed, and_true]
    exact h.waitLoop_owned ready
  · simp only [Untimed, and_true]
    apply owned_congr
    · exact assert_frame.2.2.1
    · intro m
      rw [assert_frame.2.1]
  · simp only [Untimed, and_true]
    exact (h.timeoutCallback_taken (h.timer n htimer) hlive).1.owned_iff
  · rw [h.pollReturn_owned hc, Untimed, hc]
    simp

theorem linked_of_run {k : Sockets} {ndebug : Bool} {as : List SelectEvent}
    (h : run step Free (make k ndebug) as = some s) : s.Linked :=
  (reach_of_run as h).invariant (linked_make k ndebug) fun _ _ _ hl _ hs => hl.step hs

theorem released_iff_untimed (k : Sockets) (ndebug : Bool) (as : List SelectEvent)
    (s : SelectIoWait) (h : run step Free (make k ndebug) as = some s) :
    s.Released ↔ run step Untimed (make k ndebug) as = some s := by
  rw [(linked_of_run h).released_iff, run_iff_of (I := Linked) (P := Owned)
    (fun _ _ _ hl hs => hl.step hs) (fun _ _ _ hl hs => hl.owned_step hs) (linked_make k ndebug) h]
  apply and_iff_right
  intro n howner
  exact absurd rfl howner

/-- A task has its event before its timer expires, while another one waits. -/
theorem released_after_event :
    ∃ s, run step Free (make sharedFd true)
      [.poll 1 7 POLLIN 10, .poll 2 8 POLLOUT 0, .waitLoop ⟨[5], [], []⟩, .pollReturn 7] = some s ∧
      s.Released :=
  ⟨_, rfl, (released_iff_untimed sharedFd true
    [.poll 1 7 POLLIN 10, .poll 2 8 POLLOUT 0, .waitLoop ⟨[5], [], []⟩, .pollReturn 7] _ rfl).mpr
    rfl⟩

/-- The call of `Poll` times out and returns: the `NetFD` keeps its task, and the next
`Poll` of the same task with it ends the process. -/
theorem not_released_after_timeout :
    ¬ ∀ (k : Sockets) (ndebug : Bool) (as : List SelectEvent) (s : SelectIoWait),
      run step Free (make k ndebug) as = some s → s.Released := by
  intro hall
  obtain ⟨s, hrun, t, hs, hended, hcalls⟩ : ∃ s, run step Free (make sharedFd true)
      [.poll 1 7 POLLIN 10, .timeout 1, .pollReturn 7] = some s ∧
        ∃ t, s.step (.poll 1 7 POLLIN 10) = some t ∧ t.ended = some .repeated ∧
          ∀ other ≠ 7, s.calls other = none := by
    refine ⟨_, rfl, _, rfl, rfl, fun other hother => ?_⟩
    exact (Function.update_of_ne hother _ _).trans (Function.update_of_ne hother _ _)
  have hnone : t.ended ≠ none := by
    rw [hended]
    decide
  obtain ⟨other, c, hother, hc, -⟩ := (hall sharedFd true _ s hrun).next 7 1 POLLIN 10 t hs hnone
  rw [hcalls other hother] at hc
  cases hc

end SelectIoWait

end CppGo.Netio
