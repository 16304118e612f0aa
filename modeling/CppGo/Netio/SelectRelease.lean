import CppGo.Netio.Select

/-!
# When `SelectIoWait` lets a `NetFD` go

`Linked` ties `fd_map`, the run queue and the timers to the calls of `Poll` in
progress.  It holds in every run; that `owner_task` is cleared when `Poll` returns
does not.
-/

namespace CppGo.Netio

open CppGo.Lib CppGo.Lib.Machine

namespace SelectIoWait

variable {s t : SelectIoWait} {n : Nat}

section Fields

variable {events : BitVec 32}

@[simp] theorem setNetFd_self (f : NetFD) : (s.setNetFd n f).netFd n = f :=
  Function.update_self _ _ _

theorem setNetFd_of_ne {m : Nat} (hm : m ≠ n) (f : NetFD) : (s.setNetFd n f).netFd m = s.netFd m :=
  Function.update_of_ne hm _ _

theorem pollsetDel_frame :
    (s.pollsetDel n events).fd_map = s.fd_map ∧ (s.pollsetDel n events).calls = s.calls ∧
      (s.pollsetDel n events).runnableQueue_ = s.runnableQueue_ ∧
      (s.pollsetDel n events).ended = s.ended ∧
      (s.pollsetDel n events).ndebug = s.ndebug ∧
      (s.pollsetDel n events).notify_socket = s.notify_socket ∧
      (s.pollsetDel n events).maxfd = s.maxfd := by
  unfold pollsetDel
  dsimp only
  split <;> exact ⟨rfl, rfl, rfl, rfl, rfl, rfl, rfl⟩

theorem pollsetDel_netFd (m : Nat) :
    ((s.pollsetDel n events).netFd m).fd = (s.netFd m).fd ∧
      ((s.pollsetDel n events).netFd m).owner_task = (s.netFd m).owner_task ∧
      ((s.pollsetDel n events).netFd m).timer = (s.netFd m).timer ∧
      ((s.pollsetDel n events).netFd m).revents = (s.netFd m).revents := by
  unfold pollsetDel
  dsimp only
  split
  · exact ⟨rfl, rfl, rfl, rfl⟩
  · by_cases hm : m = n
    · subst hm
      simp
    · simp [hm]

end Fields

def sharedFd : Sockets :=
  { fd := fun _ => 5, shared := fun _ => true, notify_socket := 4, distinct := fun _ => by decide }

def inPoll (s : SelectIoWait) (n : Nat) : Prop :=
  ∃ t c, s.calls t = some c ∧ c.netFd = n

structure Linked (s : SelectIoWait) : Prop where
  key : ∀ itr ∈ s.fd_map.nodes, (s.netFd itr.value).fd = itr.key
  once : s.fd_map.values.Nodup
  called : ∀ t c, s.calls t = some c → (s.netFd c.netFd).owner_task = some t
  mapped : ∀ n ∈ s.fd_map.values, s.inPoll n
  queue : ∀ t ∈ s.runnableQueue_, ∃ c, s.calls t = some c ∧ c.netFd ∉ s.fd_map.values
  nodup : s.runnableQueue_.Nodup
  timer : ∀ n, (s.netFd n).timer = .armed → n ∈ s.fd_map.values

theorem linked_make (k : Sockets) (ndebug : Bool) : (make k ndebug).Linked := by
  constructor <;> simp [make, Multimap.values, Multimap.empty]

structure Taken (s t : SelectIoWait) (n : Nat) : Prop where
  sub : t.fd_map.nodes.Sublist s.fd_map.nodes
  nodes : ∀ itr ∈ s.fd_map.nodes, itr ∈ t.fd_map.nodes ↔ itr.value ≠ n
  calls : t.calls = s.calls
  queue : t.runnableQueue_ = s.runnableQueue_ ++ (s.netFd n).owner_task.toList
  fd : ∀ m, (t.netFd m).fd = (s.netFd m).fd
  owner : ∀ m, (t.netFd m).owner_task = (s.netFd m).owner_task
  timer : ∀ m, (t.netFd m).timer = .armed → (s.netFd m).timer = .armed
  ended : t.ended = s.ended

theorem Taken.mem_values (h : Taken s t n) {m : Nat} :
    m ∈ t.fd_map.values ↔ m ∈ s.fd_map.values ∧ m ≠ n := by
  simp only [Multimap.values, List.mem_map]
  constructor
  · rintro ⟨itr, hitr, rfl⟩
    have hmem := h.sub.subset hitr
    exact ⟨⟨itr, hmem, rfl⟩, (h.nodes itr hmem).mp hitr⟩
  · rintro ⟨⟨itr, hitr, rfl⟩, hne⟩
    exact ⟨itr, (h.nodes itr hitr).mpr hne, rfl⟩

theorem Linked.taken (h : s.Linked) (htaken : Taken s t n) (hn : n ∈ s.fd_map.values)
    (htimer : (t.netFd n).timer ≠ .armed) : t.Linked := by
  obtain ⟨u, c, hcall, hnet⟩ := h.mapped n hn
  have howner : (s.netFd n).owner_task = some u := hnet ▸ h.called u c hcall
  have hqueue : t.runnableQueue_ = s.runnableQueue_ ++ [u] := by
    rw [htaken.queue, howner]
    rfl
  constructor
  case key =>
    intro itr hitr
    rw [htaken.fd]
    exact h.key itr (htaken.sub.subset hitr)
  case once => exact h.once.sublist (htaken.sub.map _)
  case called =>
    intro v d hd
    rw [htaken.calls] at hd
    rw [htaken.owner]
    exact h.called v d hd
  case mapped =>
    intro m hm
    rw [inPoll, htaken.calls]
    exact h.mapped m (htaken.mem_values.mp hm).1
  case queue =>
    intro v hv
    rw [htaken.calls]
    rw [hqueue, List.mem_append, List.mem_singleton] at hv
    rcases hv with hv | rfl
    · obtain ⟨d, hd, hout⟩ := h.queue v hv
      exact ⟨d, hd, fun hin => hout (htaken.mem_values.mp hin).1⟩
    · exact ⟨c, hcall, fun hin => (htaken.mem_values.mp hin).2 hnet⟩
  case nodup =>
    rw [hqueue, List.nodup_append]
    refine ⟨h.nodup, List.nodup_singleton _, ?_⟩
    rintro v hv w hw rfl
    rw [List.mem_singleton] at hw
    subst hw
    obtain ⟨d, hd, hout⟩ := h.queue v hv
    rw [hcall] at hd
    cases hd
    exact hout (hnet ▸ hn)
  case timer =>
    intro m hm
    have hmn : m ≠ n := fun heq => htimer (heq ▸ hm)
    exact htaken.mem_values.mpr ⟨h.timer m (htaken.timer m hm), hmn⟩

theorem Linked.mem_erase (h : s.Linked) {itr k : Node Int Nat} (hitr : itr ∈ s.fd_map.nodes)
    (hk : k ∈ s.fd_map.nodes) : k ∈ (s.fd_map.erase itr.id).nodes ↔ k.value ≠ itr.value := by
  rw [Multimap.mem_erase, and_iff_right hk]
  apply not_congr
  constructor
  · intro hid
    rw [Multimap.eq_of_id hk hitr hid]
  · intro hvalue
    rw [List.inj_on_of_nodup_map h.once hk hitr hvalue]

/-! ## `WaitLoop` -/

theorem Linked.wake (h : s.Linked) {itr : Node Int Nat} (hitr : itr ∈ s.fd_map.nodes) :
    Taken s (s.wake itr) itr.value ∧ ((s.wake itr).netFd itr.value).timer = .none := by
  obtain ⟨hmap, hcalls, hqueue, hended, -⟩ := @pollsetDel_frame
    { s with fd_map := s.fd_map.erase itr.id } itr.value (ofShort (s.netFd itr.value).revents)
  have hnet := @pollsetDel_netFd
    { s with fd_map := s.fd_map.erase itr.id } itr.value (ofShort (s.netFd itr.value).revents)
  have htimer : ((s.wake itr).netFd itr.value).timer = .none := by
    simp [SelectIoWait.wake]
  have hmap' : (s.wake itr).fd_map = s.fd_map.erase itr.id := hmap
  refine ⟨⟨?_, fun k hk => ?_, hcalls, ?_, fun m => ?_, fun m => ?_, fun m hm => ?_, hended⟩, htimer⟩
  · rw [hmap']
    exact List.filter_sublist
  · rw [hmap']
    exact h.mem_erase hitr hk
  · show (pollsetDel _ _ _).runnableQueue_ ++ _ = _
    rw [hqueue, (hnet itr.value).2.1]
  · by_cases hm : m = itr.value
    · subst hm
      exact (congrArg NetFD.fd (setNetFd_self _)).trans (hnet itr.value).1
    · exact (congrArg NetFD.fd (setNetFd_of_ne hm _)).trans (hnet m).1
  · by_cases hm : m = itr.value
    · subst hm
      exact (congrArg NetFD.owner_task (setNetFd_self _)).trans (hnet itr.value).2.1
    · exact (congrArg NetFD.owner_task (setNetFd_of_ne hm _)).trans (hnet m).2.1
  · by_cases hmn : m = itr.value
    · rw [hmn, htimer] at hm
      cases hm
    · rw [← (hnet m).2.2.1]
      exact (congrArg NetFD.timer (setNetFd_of_ne hmn _)).symm.trans hm

theorem Linked.setNetFd (h : s.Linked) {f : NetFD} (hfd : f.fd = (s.netFd n).fd)
    (howner : f.owner_task = (s.netFd n).owner_task) (htimer : f.timer = (s.netFd n).timer) :
    (s.setNetFd n f).Linked := by
  have hnet : ∀ m, ((s.setNetFd n f).netFd m).fd = (s.netFd m).fd ∧
      ((s.setNetFd n f).netFd m).owner_task = (s.netFd m).owner_task ∧
      ((s.setNetFd n f).netFd m).timer = (s.netFd m).timer := by
    intro m
    by_cases hm : m = n
    · subst hm
      rw [setNetFd_self]
      exact ⟨hfd, howner, htimer⟩
    · rw [setNetFd_of_ne hm]
      exact ⟨rfl, rfl, rfl⟩
  constructor
  case key =>
    intro itr hitr
    rw [(hnet _).1]
    exact h.key itr hitr
  case once => exact h.once
  case called =>
    intro t c hc
    rw [(hnet _).2.1]
    exact h.called t c hc
  case mapped => exact h.mapped
  case queue => exact h.queue
  case nodup => exact h.nodup
  case timer =>
    intro m hm
    rw [(hnet m).2.2] at hm
    exact h.timer m hm

theorem nodes_visit {ready : Ready} {itr k : Node Int Nat} (hk : k ∈ s.fd_map.nodes)
    (hid : k.id ≠ itr.id) : k ∈ (visit ready s itr).fd_map.nodes := by
  unfold visit
  dsimp only
  split
  · have hmap : ∀ u : SelectIoWait, (u.wake itr).fd_map = u.fd_map.erase itr.id :=
      fun u => (@pollsetDel_frame { u with fd_map := u.fd_map.erase itr.id } _ _).1
    rw [hmap]
    exact Multimap.mem_erase.mpr ⟨hk, hid⟩
  · exact hk

theorem foldl_visit {I : SelectIoWait → Prop} {ready : Ready}
    (hvisit : ∀ s itr, I s → itr ∈ s.fd_map.nodes → I (visit ready s itr))
    (itrs : List (Node Int Nat)) (s : SelectIoWait) (h : I s) (hids : (itrs.map Node.id).Nodup)
    (hmem : ∀ itr ∈ itrs, itr ∈ s.fd_map.nodes) : I (itrs.foldl (visit ready) s) := by
  induction itrs generalizing s with
  | nil => exact h
  | cons itr rest ih =>
      rw [List.map_cons, List.nodup_cons] at hids
      apply ih
      · exact hvisit s itr h (hmem itr List.mem_cons_self)
      · exact hids.2
      · intro k hk
        apply nodes_visit (hmem k (List.mem_cons_of_mem _ hk))
        intro hid
        exact hids.1 (hid ▸ List.mem_map_of_mem hk)

theorem Linked.visit (h : s.Linked) {ready : Ready} {itr : Node Int Nat}
    (hitr : itr ∈ s.fd_map.nodes) : (visit ready s itr).Linked := by
  have hset : ∀ r : BitVec 16,
      (s.setNetFd itr.value { s.netFd itr.value with revents := r }).Linked :=
    fun r => h.setNetFd rfl rfl rfl
  unfold SelectIoWait.visit
  dsimp only
  split
  · obtain ⟨htaken, htimer⟩ := (hset _).wake hitr
    apply (hset _).taken htaken (List.mem_map_of_mem hitr)
    rw [htimer]
    decide
  · exact hset _

theorem Linked.waitLoop (h : s.Linked) {ready : Ready} : (s.waitLoop ready).Linked := by
  unfold SelectIoWait.waitLoop
  split
  · exact h
  · exact foldl_visit (fun _ _ h hitr => h.visit hitr) _ _ h s.fd_map.nodup fun _ hitr => hitr

/-! ## Timeouts -/

theorem mem_entries {fd : Int} {itr : Node Int Nat} :
    itr ∈ s.entries fd ↔ itr ∈ s.fd_map.nodes ∧ itr.key = fd := by
  simp [entries]

/-- The loop of `PollsetTimeoutDel` takes out the elements of one `NetFD`, and collects the
events of the others. -/
theorem dropNetFd_spec (n : Nat) (itrs : List (Node Int Nat)) (s : SelectIoWait)
    (modEvents : BitVec 32) :
    ∃ m, (dropNetFd n itrs s modEvents).1 = { s with fd_map := m } ∧
      m.nodes = (s.fd_map.nodes.filter fun k =>
        !itrs.any fun itr => itr.id = k.id && itr.value = n) ∧
      (dropNetFd n itrs s modEvents).2 = modEvents |||
        Flags.union ((itrs.filter fun itr => itr.value ≠ n).map fun itr => s.events itr.value) := by
  induction itrs generalizing s modEvents with
  | nil => exact ⟨s.fd_map, rfl, by simp, by simp [dropNetFd]⟩
  | cons itr rest ih =>
      unfold dropNetFd
      split
      · rename_i hvalue
        obtain ⟨m, hs, hnodes, hmod⟩ := ih { s with fd_map := s.fd_map.erase itr.id } modEvents
        refine ⟨m, hs, ?_, ?_⟩
        · rw [hnodes, Multimap.filter_erase]
          apply List.filter_congr
          intro k _
          simp only [List.any_cons, hvalue, decide_true, Bool.and_true, Bool.not_or]
        · rw [hmod, List.filter_cons_of_neg (by simpa using hvalue)]
          rfl
      · rename_i hvalue
        obtain ⟨m, hs, hnodes, hmod⟩ := ih s (modEvents ||| s.events itr.value)
        refine ⟨m, hs, ?_, ?_⟩
        · rw [hnodes]
          simp [hvalue]
        · rw [hmod, List.filter_cons_of_pos (by simpa using hvalue), List.map_cons,
            Flags.union_cons, BitVec.or_assoc]

/-- Among the elements with the descriptor of a `NetFD`, its own is taken out. -/
theorem Linked.dropped (h : s.Linked) :
    (s.fd_map.nodes.filter fun k =>
        !(s.entries (s.netFd n).fd).any fun itr => itr.id = k.id && itr.value = n) =
      s.fd_map.nodes.filter fun k => k.value ≠ n := by
  apply List.filter_congr
  intro k hk
  rw [Bool.eq_iff_iff]
  simp only [Bool.not_eq_true', List.any_eq_false, Bool.and_eq_true, decide_eq_true_eq, mem_entries]
  constructor
  · intro hall hvalue
    apply hall k ⟨hk, ?_⟩ ⟨rfl, hvalue⟩
    rw [← h.key k hk, hvalue]
  · rintro hvalue itr ⟨hitr, -⟩ ⟨hid, hitrn⟩
    rw [Multimap.eq_of_id hitr hk hid] at hitrn
    exact hvalue hitrn

/-- A `NetFD` whose timer runs is in `fd_map`, so that the assertion holds. -/
theorem Linked.entries_ne_nil (h : s.Linked) (hn : n ∈ s.fd_map.values) :
    s.entries (s.netFd n).fd ≠ [] := by
  obtain ⟨itr, hitr, rfl⟩ := List.mem_map.mp hn
  apply List.ne_nil_of_mem (a := itr)
  exact mem_entries.mpr ⟨hitr, (h.key itr hitr).symm⟩

/-- `timer` of a `NetFD` after its callback has begun. -/
def fire (s : SelectIoWait) (n : Nat) : SelectIoWait :=
  s.setNetFd n { s.netFd n with timer := .fired }

theorem fire_netFd (m : Nat) :
    ((s.fire n).netFd m).fd = (s.netFd m).fd ∧
      ((s.fire n).netFd m).owner_task = (s.netFd m).owner_task ∧
      ((s.fire n).netFd m).revents = (s.netFd m).revents ∧
      (s.fire n).events m = s.events m := by
  by_cases hm : m = n
  · subst hm
    simp [fire, events]
  · rw [fire, events, setNetFd_of_ne hm]
    exact ⟨rfl, rfl, rfl, rfl⟩

/-- What `PollsetTimeoutDel` does after its loop. -/
def clearUnless (s : SelectIoWait) (n : Nat) (modEvents : BitVec 32) : SelectIoWait :=
  if modEvents &&& s.events n = 0 then s.pollsetDel n (s.events n) else s

def others (s : SelectIoWait) (n : Nat) : BitVec 32 :=
  Flags.union (((s.entries (s.netFd n).fd).filter fun itr => itr.value ≠ n).map
    fun itr => s.events itr.value)

theorem Linked.timeoutCallback_eq (h : s.Linked) (hn : n ∈ s.fd_map.values)
    (hlive : s.ended = none) :
    ∃ m : Multimap Int Nat, m.nodes = (s.fd_map.nodes.filter fun k => k.value ≠ n) ∧
      s.timeoutCallback n = (({ s.fire n with fd_map := m }).clearUnless n
        (s.others n)).removeNetFd2TaskRunnable n := by
  obtain ⟨m, hs, hnodes, hmod⟩ := dropNetFd_spec n (s.entries (s.netFd n).fd) (s.fire n) 0
  have hevents : (fun itr : Node Int Nat => (s.fire n).events itr.value) =
      fun itr => s.events itr.value := by
    ext1 itr
    exact (fire_netFd itr.value).2.2.2
  rw [hevents] at hmod
  have hmod := hmod.trans BitVec.zero_or
  have hfire : (s.fire n).entries ((s.fire n).netFd n).fd = s.entries (s.netFd n).fd := by
    rw [(fire_netFd n).1]
    rfl
  have hassert : (s.fire n).assert (!(s.entries (s.netFd n).fd).isEmpty) = s.fire n := by
    have hnonempty := List.isEmpty_eq_false_iff.mpr (h.entries_ne_nil hn)
    rw [hnonempty]
    rfl
  have hlive' : ∀ m, ({ s.fire n with fd_map := m } : SelectIoWait).ended.isSome = false := by
    intro m
    show s.ended.isSome = false
    rw [hlive]
    rfl
  have hdel : (s.fire n).pollsetTimeoutDel n =
      ({ s.fire n with fd_map := m }).clearUnless n (s.others n) := by
    simp only [pollsetTimeoutDel, hfire, hassert, hs, hmod, clearUnless, others]
    exact if_neg (by rw [hlive' s.fd_map]; decide)
  refine ⟨m, hnodes.trans h.dropped, ?_⟩
  show (if ((s.fire n).pollsetTimeoutDel n).ended.isSome then (s.fire n).pollsetTimeoutDel n
    else ((s.fire n).pollsetTimeoutDel n).removeNetFd2TaskRunnable n) = _
  rw [hdel]
  have hended : (({ s.fire n with fd_map := m }).clearUnless n (s.others n)).ended.isSome =
      false := by
    unfold clearUnless
    split
    · rw [pollsetDel_frame.2.2.2.1]
      exact hlive' m
    · exact hlive' m
  exact if_neg (by rw [hended]; decide)

theorem clearUnless_frame {modEvents : BitVec 32} :
    (s.clearUnless n modEvents).fd_map = s.fd_map ∧
      (s.clearUnless n modEvents).calls = s.calls ∧
      (s.clearUnless n modEvents).runnableQueue_ = s.runnableQueue_ ∧
      (s.clearUnless n modEvents).ended = s.ended := by
  unfold clearUnless
  split
  · obtain ⟨hmap, hcalls, hqueue, hended, -⟩ := @pollsetDel_frame s n (s.events n)
    exact ⟨hmap, hcalls, hqueue, hended⟩
  · exact ⟨rfl, rfl, rfl, rfl⟩

theorem clearUnless_netFd {modEvents : BitVec 32} (m : Nat) :
    ((s.clearUnless n modEvents).netFd m).fd = (s.netFd m).fd ∧
      ((s.clearUnless n modEvents).netFd m).owner_task = (s.netFd m).owner_task ∧
      ((s.clearUnless n modEvents).netFd m).timer = (s.netFd m).timer ∧
      ((s.clearUnless n modEvents).netFd m).revents = (s.netFd m).revents := by
  unfold clearUnless
  split
  · exact pollsetDel_netFd m
  · exact ⟨rfl, rfl, rfl, rfl⟩

theorem Linked.timeoutCallback_taken (h : s.Linked) (hn : n ∈ s.fd_map.values)
    (hlive : s.ended = none) :
    Taken s (s.timeoutCallback n) n ∧ ((s.timeoutCallback n).netFd n).timer = .fired := by
  obtain ⟨m, hnodes, heq⟩ := h.timeoutCallback_eq hn hlive
  obtain ⟨hmap, hcalls, hqueue, hended⟩ :=
    @clearUnless_frame { s.fire n with fd_map := m } n (s.others n)
  have hnet := @clearUnless_netFd { s.fire n with fd_map := m } n (s.others n)
  have hnodes' : (s.timeoutCallback n).fd_map.nodes =
      s.fd_map.nodes.filter fun k => k.value ≠ n := by
    rw [heq]
    exact (congrArg Multimap.nodes hmap).trans hnodes
  have hfired : ((s.fire n).netFd n).timer = .fired := by
    rw [fire, setNetFd_self]
  rw [heq] at hnodes' ⊢
  refine ⟨⟨?_, ?_, hcalls, ?_, ?_, ?_, ?_, hended⟩, ?_⟩
  · rw [hnodes']
    exact List.filter_sublist
  · intro itr hitr
    rw [hnodes', List.mem_filter, and_iff_right hitr, decide_eq_true_eq]
  · show (clearUnless _ _ _).runnableQueue_ ++ _ = _
    rw [hqueue, (hnet n).2.1]
    exact congrArg (s.runnableQueue_ ++ Option.toList ·) (fire_netFd n).2.1
  · intro k
    exact (hnet k).1.trans (fire_netFd k).1
  · intro k
    exact (hnet k).2.1.trans (fire_netFd k).2.1
  · intro k hk
    have hk := (hnet k).2.2.1.symm.trans hk
    by_cases hkn : k = n
    · have hk : ((s.fire n).netFd k).timer = .armed := hk
      rw [hkn, hfired] at hk
      cases hk
    · have hk : ((s.fire n).netFd k).timer = .armed := hk
      rwa [fire, setNetFd_of_ne hkn] at hk
  · exact (hnet n).2.2.1.trans hfired

theorem Linked.timeoutCallback (h : s.Linked) (hn : n ∈ s.fd_map.values)
    (hlive : s.ended = none) : (s.timeoutCallback n).Linked := by
  obtain ⟨htaken, htimer⟩ := h.timeoutCallback_taken hn hlive
  apply h.taken htaken hn
  rw [htimer]
  decide

/-! ## `Poll` -/

theorem Linked.not_called (h : s.Linked) (howner : (s.netFd n).owner_task = none) {u : Nat}
    {c : PollCall} (hc : s.calls u = some c) : c.netFd ≠ n := by
  rintro rfl
  rw [h.called u c hc] at howner
  cases howner

theorem Linked.eq_of_netFd (h : s.Linked) {u v : Nat} {c d : PollCall}
    (hc : s.calls u = some c) (hd : s.calls v = some d) (hnet : c.netFd = d.netFd) : u = v := by
  have hu := h.called u c hc
  rw [hnet, h.called v d hd] at hu
  exact (Option.some.inj hu).symm

theorem pollsetAdd_netFd {events : BitVec 32} (m : Nat) :
    ((s.pollsetAdd n events).netFd m).fd = (s.netFd m).fd ∧
      ((s.pollsetAdd n events).netFd m).owner_task = (s.netFd m).owner_task ∧
      ((s.pollsetAdd n events).netFd m).timer = (s.netFd m).timer ∧
      ((s.pollsetAdd n events).netFd m).revents = (s.netFd m).revents := by
  by_cases hm : m = n
  · subst hm
    simp [pollsetAdd]
  · simp [pollsetAdd, hm]

def register (s : SelectIoWait) (n task : Nat) (events : BitVec 32) (timeout : Int) :
    SelectIoWait :=
  let s := s.pollsetAdd n events
  { s with
    fd_map := s.fd_map.insert (s.netFd n).fd n
    calls := Function.update s.calls task (some { netFd := n, timeout := timeout }) }.setNetFd n
    { s.netFd n with
      owner_task := some task
      timer := if timeout > 0 then .armed else (s.netFd n).timer }

theorem poll_cases (s : SelectIoWait) (n task : Nat) (events : BitVec 32) (timeout : Int) :
    ((s.netFd n).owner_task ≠ none ∧
        s.poll n task events timeout =
          { s with ended := some (if s.ndebug then .repeated else .assertion) }) ∨
      ((s.netFd n).owner_task = none ∧ s.poll n task events timeout = s) ∨
      ((s.netFd n).owner_task = none ∧ s.invalid n events = false ∧
        s.poll n task events timeout = s.register n task events timeout) := by
  by_cases howner : (s.netFd n).owner_task = none
  · right
    have hpoll : s.poll n task events timeout =
        if s.invalid n events then s else s.register n task events timeout :=
      if_neg (not_not_intro howner)
    rw [hpoll]
    cases hinvalid : s.invalid n events with
    | true => exact .inl ⟨howner, rfl⟩
    | false => exact .inr ⟨howner, rfl, rfl⟩
  · left
    exact ⟨howner, if_pos howner⟩

section Register

variable {task : Nat} {events : BitVec 32} {timeout : Int}

theorem register_fd (m : Nat) :
    ((s.register n task events timeout).netFd m).fd = (s.netFd m).fd := by
  by_cases hm : m = n
  · subst hm
    rw [register, setNetFd_self]
    exact (pollsetAdd_netFd m).1
  · rw [register, setNetFd_of_ne hm]
    exact (pollsetAdd_netFd m).1

theorem register_owner (m : Nat) :
    ((s.register n task events timeout).netFd m).owner_task =
      if m = n then some task else (s.netFd m).owner_task := by
  by_cases hm : m = n
  · subst hm
    rw [register, setNetFd_self, if_pos rfl]
  · rw [register, setNetFd_of_ne hm, if_neg hm]
    exact (pollsetAdd_netFd m).2.1

theorem register_timer {m : Nat} (hm : m ≠ n) :
    ((s.register n task events timeout).netFd m).timer = (s.netFd m).timer := by
  rw [register, setNetFd_of_ne hm]
  exact (pollsetAdd_netFd m).2.2.1

theorem register_fd_map :
    (s.register n task events timeout).fd_map = s.fd_map.insert (s.netFd n).fd n :=
  congrArg (s.fd_map.insert · n) (pollsetAdd_netFd n).1

theorem mem_values_register {m : Nat} :
    m ∈ (s.register n task events timeout).fd_map.values ↔ m = n ∨ m ∈ s.fd_map.values := by
  rw [register_fd_map, (Multimap.values_insert _ _).mem_iff, List.mem_cons]

theorem register_calls (u : Nat) : (s.register n task events timeout).calls u =
    if u = task then some { netFd := n, timeout := timeout } else s.calls u :=
  Function.update_apply _ _ _ _

theorem Linked.register (h : s.Linked) (howner : (s.netFd n).owner_task = none)
    (hcall : s.calls task = none) : (s.register n task events timeout).Linked := by
  have hne : ∀ u c, s.calls u = some c → u ≠ task := by
    rintro u c hc rfl
    rw [hcall] at hc
    cases hc
  have hout : n ∉ s.fd_map.values := by
    intro hin
    obtain ⟨u, c, hc, hnet⟩ := h.mapped n hin
    exact h.not_called howner hc hnet
  have hcalls : ∀ u c, s.calls u = some c →
      (s.register n task events timeout).calls u = some c := by
    intro u c hc
    rw [register_calls, if_neg (hne u c hc), hc]
  constructor
  case key =>
    intro itr hitr
    rw [register_fd]
    rw [register_fd_map, Multimap.mem_insert] at hitr
    rcases hitr with rfl | hitr
    · rfl
    · exact h.key itr hitr
  case once =>
    rw [register_fd_map, (Multimap.values_insert _ _).nodup_iff, List.nodup_cons]
    exact ⟨hout, h.once⟩
  case called =>
    intro u c hc
    rw [register_calls] at hc
    rw [register_owner]
    split at hc
    · rename_i hu
      cases hc
      rw [if_pos rfl, hu]
    · rw [if_neg (h.not_called howner hc)]
      exact h.called u c hc
  case mapped =>
    intro m hm
    rw [mem_values_register] at hm
    rcases hm with rfl | hm
    · exact ⟨task, _, (register_calls task).trans (if_pos rfl), rfl⟩
    · obtain ⟨u, c, hc, hnet⟩ := h.mapped m hm
      exact ⟨u, c, hcalls u c hc, hnet⟩
  case queue =>
    intro u hu
    obtain ⟨c, hc, hin⟩ := h.queue u hu
    refine ⟨c, hcalls u c hc, ?_⟩
    rw [mem_values_register, not_or]
    exact ⟨h.not_called howner hc, hin⟩
  case nodup => exact h.nodup
  case timer =>
    intro m hm
    rw [mem_values_register]
    by_cases hmn : m = n
    · exact .inl hmn
    · rw [register_timer hmn] at hm
      exact .inr (h.timer m hm)

end Register

theorem Linked.poll (h : s.Linked) {task : Nat} (hcall : s.calls task = none)
    (events : BitVec 32) (timeout : Int) : (s.poll n task events timeout).Linked := by
  obtain ⟨-, heq⟩ | ⟨-, heq⟩ | ⟨howner, -, heq⟩ := s.poll_cases n task events timeout
  · rw [heq]
    exact ⟨h.key, h.once, h.called, h.mapped, h.queue, h.nodup, h.timer⟩
  · rw [heq]
    exact h
  · rw [heq]
    exact h.register howner hcall

section Return

variable {task : Nat} {c : PollCall}

def TimedOut (s : SelectIoWait) (c : PollCall) : Prop :=
  c.timeout > 0 ∧ (s.netFd c.netFd).timer ≠ .none

instance : Decidable (s.TimedOut c) := inferInstanceAs (Decidable (_ ∧ _))

theorem pollReturn_netFd_self :
    (s.pollReturn task c).netFd c.netFd =
      if s.TimedOut c then { s.netFd c.netFd with revents := 0, timer := .none }
      else { s.netFd c.netFd with revents := 0, owner_task := none } := by
  by_cases htimed : s.TimedOut c
  · rw [if_pos htimed]
    exact (congrArg (fun t => netFd t c.netFd) (if_pos htimed)).trans (setNetFd_self _)
  · rw [if_neg htimed]
    exact (congrArg (fun t => netFd t c.netFd) (if_neg htimed)).trans (setNetFd_self _)

theorem pollReturn_netFd_of_ne {m : Nat} (hm : m ≠ c.netFd) :
    (s.pollReturn task c).netFd m = s.netFd m := by
  unfold pollReturn
  dsimp only
  split <;> exact setNetFd_of_ne hm _

theorem pollReturn_frame :
    (s.pollReturn task c).fd_map = s.fd_map ∧
      (s.pollReturn task c).calls = Function.update s.calls task none ∧
      (s.pollReturn task c).runnableQueue_ = s.runnableQueue_.erase task ∧
      (s.pollReturn task c).ended = s.ended := by
  unfold pollReturn
  dsimp only
  split <;> exact ⟨rfl, rfl, rfl, rfl⟩

theorem pollReturn_fd (m : Nat) : ((s.pollReturn task c).netFd m).fd = (s.netFd m).fd := by
  by_cases hm : m = c.netFd
  · rw [hm, pollReturn_netFd_self]
    split <;> rfl
  · rw [pollReturn_netFd_of_ne hm]

theorem Linked.pollReturn (h : s.Linked) (hc : s.calls task = some c)
    (htask : task ∈ s.runnableQueue_) : (s.pollReturn task c).Linked := by
  obtain ⟨hmap, hcalls, hqueue, -⟩ := @pollReturn_frame s task c
  have hout : c.netFd ∉ s.fd_map.values := by
    obtain ⟨d, hd, hout⟩ := h.queue task htask
    rw [hc] at hd
    cases hd
    exact hout
  have hcalls' : ∀ u, (s.pollReturn task c).calls u = if u = task then none else s.calls u := by
    intro u
    rw [hcalls]
    exact Function.update_apply _ _ _ _
  constructor
  case key =>
    intro itr hitr
    rw [hmap] at hitr
    rw [pollReturn_fd]
    exact h.key itr hitr
  case once =>
    rw [hmap]
    exact h.once
  case called =>
    intro u d hd
    rw [hcalls'] at hd
    split at hd
    · cases hd
    · rename_i hu
      rw [pollReturn_netFd_of_ne fun heq => hu (h.eq_of_netFd hd hc heq)]
      exact h.called u d hd
  case mapped =>
    intro m hm
    rw [hmap] at hm
    obtain ⟨u, d, hd, hnet⟩ := h.mapped m hm
    refine ⟨u, d, ?_, hnet⟩
    rw [hcalls', if_neg ?_]
    · exact hd
    · rintro rfl
      rw [hc] at hd
      cases hd
      exact hout (hnet ▸ hm)
  case queue =>
    intro u hu
    rw [hqueue, h.nodup.mem_erase_iff] at hu
    obtain ⟨d, hd, hin⟩ := h.queue u hu.2
    refine ⟨d, ?_, ?_⟩
    · rw [hcalls', if_neg hu.1]
      exact hd
    · rw [hmap]
      exact hin
  case nodup =>
    rw [hqueue]
    exact h.nodup.erase task
  case timer =>
    intro m hm
    rw [hmap]
    by_cases hmc : m = c.netFd
    · rw [hmc, pollReturn_netFd_self] at hm
      split at hm
      · cases hm
      · exact hmc ▸ h.timer _ hm
    · rw [pollReturn_netFd_of_ne hmc] at hm
      exact h.timer m hm

end Return

/-! ## Steps -/

theorem step_cases {a : SelectEvent} (hs : s.step a = some t) :
    s.ended = none ∧
      ((∃ n task events timeout, a = .poll n task events timeout ∧ s.calls task = none ∧
          t = s.poll n task events timeout) ∨
        (∃ ready, a = .waitLoop ready ∧ s.registered ready = true ∧ t = s.waitLoop ready) ∨
        (∃ errno, a = .selectError errno ∧ t = s.assert (errno != EBADF)) ∨
        (∃ n, a = .timeout n ∧ (s.netFd n).timer = .armed ∧ t = s.timeoutCallback n) ∨
        ∃ task c, a = .pollReturn task ∧ s.calls task = some c ∧ task ∈ s.runnableQueue_ ∧
          t = s.pollReturn task c) := by
  unfold step at hs
  split at hs
  · cases hs
  · rename_i hended
    refine ⟨by simpa using hended, ?_⟩
    cases a with
    | poll n task events timeout =>
        obtain ⟨hcall, heq⟩ := Option.ite_none_right_eq_some.mp hs
        cases heq
        exact .inl ⟨n, task, events, timeout, rfl, hcall, rfl⟩
    | waitLoop ready =>
        obtain ⟨hready, heq⟩ := Option.ite_none_right_eq_some.mp hs
        cases heq
        exact .inr (.inl ⟨ready, rfl, hready, rfl⟩)
    | selectError errno =>
        cases hs
        exact .inr (.inr (.inl ⟨errno, rfl, rfl⟩))
    | timeout n =>
        obtain ⟨htimer, heq⟩ := Option.ite_none_right_eq_some.mp hs
        cases heq
        exact .inr (.inr (.inr (.inl ⟨n, rfl, htimer, rfl⟩)))
    | pollReturn task =>
        dsimp only at hs
        cases hc : s.calls task with
        | none =>
            rw [hc] at hs
            cases hs
        | some c =>
            rw [hc] at hs
            obtain ⟨htask, heq⟩ := Option.ite_none_right_eq_some.mp hs
            cases heq
            exact .inr (.inr (.inr (.inr ⟨task, c, rfl, hc, htask, rfl⟩)))

theorem assert_frame {cond : Bool} :
    (s.assert cond).fd_map = s.fd_map ∧ (s.assert cond).netFd = s.netFd ∧
      (s.assert cond).calls = s.calls ∧ (s.assert cond).runnableQueue_ = s.runnableQueue_ := by
  unfold SelectIoWait.assert
  split <;> exact ⟨rfl, rfl, rfl, rfl⟩

theorem Linked.step (h : s.Linked) {a : SelectEvent} (hs : s.step a = some t) : t.Linked := by
  obtain ⟨hlive, ⟨n, task, events, timeout, -, hcall, rfl⟩ | ⟨ready, -, -, rfl⟩ |
    ⟨errno, -, rfl⟩ | ⟨n, -, htimer, rfl⟩ | ⟨task, c, -, hc, htask, rfl⟩⟩ := step_cases hs
  · exact h.poll hcall events timeout
  · exact h.waitLoop
  · unfold SelectIoWait.assert
    split
    · exact h
    · exact ⟨h.key, h.once, h.called, h.mapped, h.queue, h.nodup, h.timer⟩
  · exact h.timeoutCallback (h.timer n htimer) hlive
  · exact h.pollReturn hc htask

end SelectIoWait

end CppGo.Netio
