import CppGo.Netio.SelectMirror

/-!
# The sets of `select` in every run

`Poll` sets a bit, a `NetFD` outside of `Poll` has none, and so `NetFD`s may be
constructed, copied, assigned and closed there.
-/

namespace CppGo.Netio

open CppGo.Lib CppGo.Lib.Machine
open EpollIoWait (Waits)

namespace SelectIoWait

variable {s t : SelectIoWait} {n : Nat} {e : BitVec 32}

/-! ## `Poll` -/

section Register

variable {task : Nat} {timeout : Int}

theorem register_events (hwaits : Waits e) (hrest : s.events n = 0) (m : Nat) :
    (s.register n task e timeout).events m = if m = n then e else s.events m := by
  have hall : ofShort (toShort (ofShort (s.netFd n).events ||| e)) = e := by
    have hzero : ofShort (s.netFd n).events = 0 := hrest
    rw [hzero]
    rcases hwaits with rfl | rfl <;> decide
  unfold SelectIoWait.events register pollsetAdd
  by_cases hm : m = n
  · rw [if_pos hm, hm, setNetFd_self]
    dsimp only
    rw [Function.update_self]
    exact hall
  · rw [if_neg hm, setNetFd_of_ne hm]
    dsimp only
    rw [Function.update_of_ne hm]

theorem register_fdSet (hwaits : Waits e) (hrest : s.events n = 0) {e' : BitVec 32}
    (hwaits' : Waits e') : (s.register n task e timeout).fdSet e' =
      if e' = e then Function.update (s.fdSet e') (s.netFd n).fd true else s.fdSet e' := by
  have hall : ofShort (s.netFd n).events ||| e = e := by
    have hzero : ofShort (s.netFd n).events = 0 := hrest
    rw [hzero]
    exact BitVec.zero_or
  have hsets : (s.register n task e timeout).fd_read_set =
        change s.fd_read_set (e &&& POLLIN != 0) (s.netFd n).fd true ∧
      (s.register n task e timeout).fd_write_set =
        change s.fd_write_set (e &&& POLLOUT != 0) (s.netFd n).fd true := by
    unfold register pollsetAdd setNetFd
    dsimp only
    rw [hall]
    exact ⟨rfl, rfl⟩
  unfold fdSet
  rw [hsets.1, hsets.2]
  rcases hwaits with rfl | rfl <;> rcases hwaits' with rfl | rfl <;> rfl

theorem register_frame (hwaits : Waits e) (hrest : s.events n = 0) :
    (s.register n task e timeout).fd_exception_set = s.fd_exception_set ∧
      (s.register n task e timeout).notify_socket = s.notify_socket ∧
      s.maxfd ≤ (s.register n task e timeout).maxfd ∧
      (s.netFd n).fd ≤ (s.register n task e timeout).maxfd := by
  have hall : ofShort (s.netFd n).events ||| e = e := by
    have hzero : ofShort (s.netFd n).events = 0 := hrest
    rw [hzero]
    exact BitVec.zero_or
  have hmax : (s.register n task e timeout).maxfd =
      if s.maxfd < (s.netFd n).fd then (s.netFd n).fd else s.maxfd := rfl
  refine ⟨?_, rfl, ?_, ?_⟩
  · unfold register pollsetAdd setNetFd
    dsimp only
    rw [hall]
    rcases hwaits with rfl | rfl <;> rfl
  · rw [hmax]
    split <;> omega
  · rw [hmax]
    split <;> omega

theorem register_revents (m : Nat) :
    ((s.register n task e timeout).netFd m).revents = (s.netFd m).revents := by
  by_cases hm : m = n
  · subst hm
    rw [register, setNetFd_self]
    exact (pollsetAdd_netFd m).2.2.2
  · rw [register, setNetFd_of_ne hm]
    exact (pollsetAdd_netFd m).2.2.2

theorem not_inPoll_of_register {m : Nat} (hcall : s.calls task = none)
    (hm : ¬ (s.register n task e timeout).inPoll m) : ¬ s.inPoll m := by
  rintro ⟨u, c, hc, hnet⟩
  apply hm
  refine ⟨u, c, ?_, hnet⟩
  rw [register_calls, if_neg ?_]
  · exact hc
  · rintro rfl
    rw [hcall] at hc
    cases hc

theorem Mirrored.register (h : s.Mirrored) (hwaits : Waits e)
    (halone : ∀ m ∈ s.fd_map.values, m ≠ n → (s.netFd m).fd = (s.netFd n).fd → s.events m ≠ e)
    (howner : (s.netFd n).owner_task = none) (hcall : s.calls task = none)
    (hvalid : 0 ≤ (s.netFd n).fd) : (s.register n task e timeout).Mirrored := by
  have hout : ∀ {m}, m ∈ s.fd_map.values → m ≠ n := by
    rintro m hm rfl
    obtain ⟨u, c, hc, hnet⟩ := h.mapped m hm
    exact h.not_called howner hc hnet
  have hrest : s.events n = 0 := h.rest n fun hn => hout hn rfl
  obtain ⟨hexception, hnotify, hmax, hmax'⟩ :=
    @register_frame s n e task timeout hwaits hrest
  have hself : (s.register n task e timeout).events n = e := by
    rw [register_events hwaits hrest, if_pos rfl]
  have hothers : ∀ {m}, m ≠ n → (s.register n task e timeout).events m = s.events m := by
    intro m hm
    rw [register_events hwaits hrest, if_neg hm]
  have hset : ∀ e', Waits e' → ∀ fd, (s.register n task e timeout).fdSet e' fd = true ↔
      (e' = e ∧ fd = (s.netFd n).fd) ∨ s.fdSet e' fd = true := by
    intro e' he' fd
    rw [register_fdSet hwaits hrest he']
    by_cases hsame : e' = e
    · by_cases hfd : fd = (s.netFd n).fd
      · simp [hsame, hfd]
      · simp [hsame, hfd]
    · simp [hsame]
  have hrequests : ∀ e' fd, (s.register n task e timeout).requests e' fd ↔
      (e' = e ∧ fd = (s.netFd n).fd) ∨ s.requests e' fd := by
    intro e' fd
    constructor
    · rintro ⟨m, hm, rfl, rfl⟩
      rw [register_fd]
      rcases mem_values_register.mp hm with rfl | hm
      · exact .inl ⟨hself, rfl⟩
      · rw [hothers (hout hm)]
        exact .inr ⟨m, hm, rfl, rfl⟩
    · rintro (⟨rfl, rfl⟩ | ⟨m, hm, rfl, rfl⟩)
      · exact ⟨n, mem_values_register.mpr (.inl rfl), register_fd n, hself⟩
      · exact ⟨m, mem_values_register.mpr (.inr hm), register_fd m, hothers (hout hm)⟩
  constructor
  case toLinked => exact h.toLinked.register howner hcall
  case waits =>
    intro m hm
    rcases mem_values_register.mp hm with rfl | hm
    · rw [hself]
      exact hwaits
    · rw [hothers (hout hm)]
      exact h.waits m hm
  case alone =>
    intro m hm k hk hfd he
    rw [register_fd, register_fd] at hfd
    rcases mem_values_register.mp hm with hmn | hms <;>
      rcases mem_values_register.mp hk with hkn | hks
    · rw [hmn, hkn]
    · rw [hmn] at hfd he
      rw [hself, hothers (hout hks)] at he
      exact absurd he.symm (halone k hks (hout hks) hfd.symm)
    · rw [hkn] at hfd he
      rw [hself, hothers (hout hms)] at he
      exact absurd he (halone m hms (hout hms) hfd)
    · rw [hothers (hout hms), hothers (hout hks)] at he
      exact h.alone m hms k hks hfd he
  case rest =>
    intro m hm
    rw [mem_values_register, not_or] at hm
    rw [hothers hm.1]
    exact h.rest m hm.2
  case quiet =>
    intro m hm
    rw [register_revents]
    apply h.quiet m
    rcases hm with hm | hm
    · rcases mem_values_register.mp hm with rfl | hm
      · exact .inr fun ⟨u, c, hc, hnet⟩ => h.not_called howner hc hnet
      · exact .inl hm
    · exact .inr (not_inPoll_of_register hcall hm)
  case set =>
    intro e' he' fd
    rw [hset e' he', h.set e' he', hrequests, hnotify]
    exact or_left_comm
  case exception => rw [hexception, h.exception]
  case bound =>
    intro e' he' fd hbit
    rcases (hset e' he' fd).mp hbit with ⟨-, rfl⟩ | hbit
    · exact hmax'
    · exact (h.bound e' he' fd hbit).trans hmax
  case foreign =>
    intro m hm
    rw [register_fd] at hm ⊢
    rw [hnotify]
    exact h.foreign m hm
  case valid =>
    intro m hm
    rw [register_fd]
    rcases mem_values_register.mp hm with rfl | hm
    · exact hvalid
    · exact h.valid m hm

end Register

theorem Mirrored.of_same (h : s.Mirrored) (hlinked : t.Linked)
    (hsets : t.fd_read_set = s.fd_read_set ∧ t.fd_write_set = s.fd_write_set ∧
      t.fd_exception_set = s.fd_exception_set ∧ t.maxfd = s.maxfd ∧
      t.notify_socket = s.notify_socket)
    (hmap : t.fd_map = s.fd_map)
    (hnet : ∀ m ∈ s.fd_map.values, (t.netFd m).fd = (s.netFd m).fd ∧ t.events m = s.events m ∧
      (t.netFd m).revents = (s.netFd m).revents)
    (hrest : ∀ m ∉ s.fd_map.values, t.events m = 0 ∧
      (0 ≤ (t.netFd m).fd → (t.netFd m).fd ≠ s.notify_socket) ∧
      (¬ t.inPoll m → (t.netFd m).revents = 0)) : t.Mirrored := by
  have hset : ∀ e, t.fdSet e = s.fdSet e := by
    intro e
    unfold fdSet
    rw [hsets.1, hsets.2.1]
  have hrequests : ∀ e fd, t.requests e fd ↔ s.requests e fd := by
    intro e fd
    unfold requests
    rw [hmap]
    constructor
    · rintro ⟨m, hm, hfd, he⟩
      exact ⟨m, hm, (hnet m hm).1 ▸ hfd, (hnet m hm).2.1 ▸ he⟩
    · rintro ⟨m, hm, hfd, he⟩
      exact ⟨m, hm, (hnet m hm).1.trans hfd, (hnet m hm).2.1.trans he⟩
  constructor
  case toLinked => exact hlinked
  case waits =>
    intro m hm
    rw [hmap] at hm
    rw [(hnet m hm).2.1]
    exact h.waits m hm
  case alone =>
    intro m hm k hk hfd he
    rw [hmap] at hm hk
    rw [(hnet m hm).1, (hnet k hk).1] at hfd
    rw [(hnet m hm).2.1, (hnet k hk).2.1] at he
    exact h.alone m hm k hk hfd he
  case rest =>
    intro m hm
    rw [hmap] at hm
    exact (hrest m hm).1
  case quiet =>
    intro m hm
    by_cases hms : m ∈ s.fd_map.values
    · rw [(hnet m hms).2.2]
      exact h.quiet m (.inl hms)
    · rw [hmap] at hm
      exact (hrest m hms).2.2 (hm.resolve_left hms)
  case set =>
    intro e he fd
    rw [hset, h.set e he, hrequests, hsets.2.2.2.2]
  case exception => rw [hsets.2.2.1, h.exception]
  case bound =>
    intro e he fd hbit
    rw [hset] at hbit
    rw [hsets.2.2.2.1]
    exact h.bound e he fd hbit
  case foreign =>
    intro m hm
    rw [hsets.2.2.2.2]
    by_cases hms : m ∈ s.fd_map.values
    · rw [(hnet m hms).1] at hm ⊢
      exact h.foreign m hm
    · exact (hrest m hms).2.1 hm
  case valid =>
    intro m hm
    rw [hmap] at hm
    rw [(hnet m hm).1]
    exact h.valid m hm

theorem Mirrored.ended (h : s.Mirrored) (o : Option Ending) :
    ({ s with ended := o } : SelectIoWait).Mirrored := by
  apply h.of_same
  · exact ⟨h.key, h.once, h.called, h.mapped, h.queue, h.nodup, h.timer⟩
  · exact ⟨rfl, rfl, rfl, rfl, rfl⟩
  · rfl
  · exact fun m _ => ⟨rfl, rfl, rfl⟩
  · exact fun m hm => ⟨h.rest m hm, h.foreign m, fun hin => h.quiet m (.inr hin)⟩

theorem Mirrored.poll (h : s.Mirrored) {task : Nat} (hcall : s.calls task = none)
    (hwaits : Waits e) (timeout : Int)
    (halone : ∀ m ∈ s.fd_map.values, m ≠ n → (s.netFd m).fd = (s.netFd n).fd → s.events m ≠ e) :
    (s.poll n task e timeout).Mirrored := by
  obtain ⟨-, heq⟩ | ⟨-, heq⟩ | ⟨howner, hinvalid, heq⟩ := s.poll_cases n task e timeout
  · rw [heq]
    exact h.ended _
  · rw [heq]
    exact h
  · rw [heq]
    apply h.register hwaits halone howner hcall
    unfold invalid at hinvalid
    simp only [Bool.or_eq_false_iff, decide_eq_false_iff_not, not_lt] at hinvalid
    exact hinvalid.1.1.1

theorem Mirrored.pollReturn (h : s.Mirrored) {task : Nat} {c : PollCall}
    (hc : s.calls task = some c) (htask : task ∈ s.runnableQueue_) :
    (s.pollReturn task c).Mirrored := by
  have hout : c.netFd ∉ s.fd_map.values := by
    obtain ⟨d, hd, hout⟩ := h.queue task htask
    rw [hc] at hd
    cases hd
    exact hout
  have hevents : ∀ m, (s.pollReturn task c).events m = s.events m := by
    intro m
    unfold SelectIoWait.events
    by_cases hm : m = c.netFd
    · rw [hm, pollReturn_netFd_self]
      split <;> rfl
    · rw [pollReturn_netFd_of_ne hm]
  apply h.of_same
  · exact h.toLinked.pollReturn hc htask
  · unfold SelectIoWait.pollReturn
    dsimp only
    split <;> exact ⟨rfl, rfl, rfl, rfl, rfl⟩
  · exact pollReturn_frame.1
  · intro m hm
    refine ⟨pollReturn_fd m, hevents m, ?_⟩
    rw [pollReturn_netFd_of_ne]
    rintro rfl
    exact hout hm
  · intro m hm
    rw [hevents, pollReturn_fd]
    refine ⟨h.rest m hm, h.foreign m, fun hin => ?_⟩
    by_cases hmc : m = c.netFd
    · rw [hmc, pollReturn_netFd_self]
      split <;> rfl
    · rw [pollReturn_netFd_of_ne hmc]
      apply h.quiet m
      refine .inr fun ⟨u, d, hd, hnet⟩ => hin ⟨u, d, ?_, hnet⟩
      rw [pollReturn_frame.2.1, Function.update_of_ne]
      · exact hd
      · rintro rfl
        rw [hc] at hd
        cases hd
        exact hmc hnet.symm

theorem Mirrored.step (h : s.Mirrored) {a : SelectEvent} (hs : s.step a = some t)
    (hpoll : ∀ n task events timeout, a = .poll n task events timeout → Waits events ∧
      ∀ m ∈ s.fd_map.values, m ≠ n → (s.netFd m).fd = (s.netFd n).fd → s.events m ≠ events) :
    t.Mirrored := by
  obtain ⟨hlive, ⟨n, task, events, timeout, rfl, hcall, rfl⟩ | ⟨ready, -, -, rfl⟩ |
    ⟨errno, -, rfl⟩ | ⟨n, -, htimer, rfl⟩ | ⟨task, c, -, hc, htask, rfl⟩⟩ := step_cases hs
  · obtain ⟨hwaits, halone⟩ := hpoll n task events timeout rfl
    exact h.poll hcall hwaits timeout halone
  · exact h.waitLoop ready
  · unfold SelectIoWait.assert
    split
    · exact h
    · exact h.ended _
  · exact h.timeoutCallback (h.timer n htimer) hlive
  · exact h.pollReturn hc htask

/-! ## `NetFD`s come and go -/

theorem Mirrored.replace (h : s.Mirrored) (hin : ¬ s.inPoll n) {f : NetFD}
    (hevents : ofShort f.events = 0) (hrevents : f.revents = 0)
    (hfd : 0 ≤ f.fd → f.fd ≠ s.notify_socket) (htimer : f.timer ≠ .armed) :
    (s.setNetFd n f).Mirrored := by
  have hout : n ∉ s.fd_map.values := fun hn => hin (h.mapped n hn)
  have hne : ∀ {m}, m ∈ s.fd_map.values → m ≠ n := by
    rintro m hm rfl
    exact hout hm
  apply h.of_same
  · constructor
    case key =>
      intro itr hitr
      rw [setNetFd_of_ne (hne (List.mem_map_of_mem hitr))]
      exact h.key itr hitr
    case once => exact h.once
    case called =>
      intro u c hc
      rw [setNetFd_of_ne fun heq => hin ⟨u, c, hc, heq⟩]
      exact h.called u c hc
    case mapped => exact h.mapped
    case queue => exact h.queue
    case nodup => exact h.nodup
    case timer =>
      intro m hm
      by_cases hmn : m = n
      · rw [hmn, setNetFd_self] at hm
        exact absurd hm htimer
      · rw [setNetFd_of_ne hmn] at hm
        exact h.timer m hm
  · exact ⟨rfl, rfl, rfl, rfl, rfl⟩
  · rfl
  · intro m hm
    unfold SelectIoWait.events
    rw [setNetFd_of_ne (hne hm)]
    exact ⟨rfl, rfl, rfl⟩
  · intro m hm
    unfold SelectIoWait.events
    by_cases hmn : m = n
    · rw [hmn, setNetFd_self]
      exact ⟨hevents, hfd, fun _ => hrevents⟩
    · rw [setNetFd_of_ne hmn]
      exact ⟨h.rest m hm, h.foreign m, fun hin => h.quiet m (.inr hin)⟩

theorem Mirrored.idle (h : s.Mirrored) (hin : ¬ s.inPoll n) :
    s.events n = 0 ∧ (s.netFd n).revents = 0 ∧ (s.netFd n).timer ≠ .armed :=
  ⟨h.rest n fun hn => hin (h.mapped n hn), h.quiet n (.inr hin),
    fun htimer => hin (h.mapped n (h.timer n htimer))⟩

theorem Mirrored.assert (h : s.Mirrored) (cond : Bool) : (s.assert cond).Mirrored := by
  unfold SelectIoWait.assert
  split
  · exact h
  · exact h.ended _

/-- One `NetFD` with a shared descriptor may read while another one writes, but no two of
them read, and no two write.  A `NetFD` is constructed, copied, assigned and closed only
while no task is in `Poll` with it, and a new descriptor is not the interrupter's. -/
def Separate (s : SelectIoWait) : NetFdEvent → Prop
  | .select (.poll n _ events _) => Waits events ∧
      ∀ m ∈ s.fd_map.values, m ≠ n → (s.netFd m).fd = (s.netFd n).fd → s.events m ≠ events
  | .select _ => True
  | .construct n fd _ => ¬ s.inPoll n ∧ fd ≠ s.notify_socket
  | .copy _ n m | .assign _ n m => ¬ s.inPoll n ∧ ¬ s.inPoll m
  | .innerClose n => ¬ s.inPoll n

theorem Mirrored.copy (h : s.Mirrored) {task m : Nat} (hn : ¬ s.inPoll n) (hm : ¬ s.inPoll m) :
    (s.copy task n m).Mirrored := by
  obtain ⟨hevents, hrevents, -⟩ := h.idle hm
  obtain ⟨-, -, hcalls, -⟩ := @assert_frame s (!(s.foreignTask task m))
  apply (h.assert _).replace
  · rw [inPoll, hcalls]
    exact hn
  · exact hevents
  · exact hrevents
  · rw [show (s.assert _).notify_socket = s.notify_socket by
      unfold SelectIoWait.assert; split <;> rfl]
    exact h.foreign m
  · show PollTimer.none ≠ .armed
    decide

theorem Mirrored.assign (h : s.Mirrored) {task m : Nat} (hn : ¬ s.inPoll n) (hm : ¬ s.inPoll m) :
    (s.assign task n m).Mirrored := by
  obtain ⟨hevents, hrevents, -⟩ := h.idle hm
  obtain ⟨hevents', hrevents', htimer⟩ := h.idle hn
  unfold SelectIoWait.assign
  dsimp only
  split
  · apply Mirrored.assert
    apply h.replace hn
    · exact hevents'
    · exact hrevents'
    · exact fun hfd => absurd hfd (show ¬ (0 : Int) ≤ -1 by decide)
    · exact htimer
  · exact h.replace hn hevents hrevents (h.foreign m) htimer

theorem Mirrored.innerClose (h : s.Mirrored) (hn : ¬ s.inPoll n) : (s.innerClose n).Mirrored := by
  obtain ⟨hevents, hrevents, htimer⟩ := h.idle hn
  unfold SelectIoWait.innerClose
  split
  · exact h
  · apply h.replace hn
    · exact hevents
    · exact hrevents
    · exact fun hfd => absurd hfd (show ¬ (0 : Int) ≤ -1 by decide)
    · exact htimer

theorem Mirrored.netFdStep (h : s.Mirrored) {a : NetFdEvent} (hsep : s.Separate a)
    (hs : s.netFdStep a = some t) : t.Mirrored := by
  cases a with
  | select a =>
      apply h.step hs
      rintro n task events timeout rfl
      exact hsep
  | construct n fd share =>
      obtain ⟨-, heq⟩ := Option.ite_none_left_eq_some.mp hs
      cases heq
      apply h.replace hsep.1
      · show ofShort 0 = 0
        decide
      · rfl
      · exact fun _ => hsep.2
      · show PollTimer.none ≠ .armed
        decide
  | copy task n m =>
      obtain ⟨-, heq⟩ := Option.ite_none_left_eq_some.mp hs
      cases heq
      exact h.copy hsep.1 hsep.2
  | assign task n m =>
      obtain ⟨-, heq⟩ := Option.ite_none_left_eq_some.mp hs
      cases heq
      exact h.assign hsep.1 hsep.2
  | innerClose n =>
      obtain ⟨-, heq⟩ := Option.ite_none_left_eq_some.mp hs
      cases heq
      exact h.innerClose hsep

/-! ## Every run -/

/-- `fd` is in the read set if it is the interrupter's or a `NetFD` in `fd_map` requests
`POLLIN` on it, in the write set if one requests `POLLOUT`, and in no other case; the
descriptors of the sets are at most `maxfd`; a `NetFD` outside of `fd_map` requests
nothing. -/
structure Mirrors (s : SelectIoWait) : Prop where
  read : ∀ fd, s.fd_read_set fd = true ↔ fd = s.notify_socket ∨
    ∃ n ∈ s.fd_map.values, (s.netFd n).fd = fd ∧ s.events n &&& POLLIN ≠ 0
  write : ∀ fd, s.fd_write_set fd = true ↔
    ∃ n ∈ s.fd_map.values, (s.netFd n).fd = fd ∧ s.events n &&& POLLOUT ≠ 0
  maxfd : ∀ fd, (s.fd_read_set fd || s.fd_write_set fd || s.fd_exception_set fd) = true →
    fd ≤ s.maxfd
  rest : ∀ n ∉ s.fd_map.values, (s.netFd n).events = 0

theorem Mirrored.requests_iff (h : s.Mirrored) (hwaits : Waits e) (fd : Int) :
    s.requests e fd ↔ ∃ n ∈ s.fd_map.values, (s.netFd n).fd = fd ∧ s.events n &&& e ≠ 0 := by
  unfold requests
  apply exists_congr
  intro n
  apply and_congr_right
  intro hn
  apply and_congr_right
  intro _
  rcases hwaits with rfl | rfl <;> rcases h.waits n hn with he | he <;> rw [he] <;> decide

theorem Mirrored.mirrors (h : s.Mirrored) : s.Mirrors := by
  have hin : Waits POLLIN := .inl rfl
  have hout : Waits POLLOUT := .inr rfl
  constructor
  · intro fd
    rw [← h.requests_iff hin]
    have hset := h.set POLLIN hin fd
    simpa [fdSet] using hset
  · intro fd
    rw [← h.requests_iff hout]
    have hset := h.set POLLOUT hout fd
    simpa [fdSet, show POLLOUT ≠ POLLIN by decide] using hset
  · intro fd hfd
    simp only [Bool.or_eq_true, h.exception, Bool.false_eq_true, or_false] at hfd
    rcases hfd with hread | hwrite
    · exact h.bound POLLIN hin fd hread
    · exact h.bound POLLOUT hout fd hwrite
  · exact fun n hn => ofShort_eq_zero.mp (h.rest n hn)

theorem mirrors_of_separate (k : Sockets) (ndebug : Bool) (s : SelectIoWait)
    (h : Reach netFdStep Separate (make k ndebug) s) : s.Mirrors :=
  (h.invariant (mirrored_make k ndebug) fun _ _ _ hm hsep hs => hm.netFdStep hsep hs).mirrors

/-- Two tasks share the descriptor 5, one reads and the other one writes.  The reader is
served while the writer waits, and the writer times out. -/
theorem mirrors_reader_and_writer :
    ∃ s, Reach netFdStep Separate (make sharedFd true) s ∧ s.runnableQueue_ = [7, 8] ∧
      s.Mirrors := by
  have hidle : ∀ n, ¬ (make sharedFd true).inPoll n := by
    rintro n ⟨u, c, hc, -⟩
    cases hc
  have hmake : Reach netFdStep Separate (make sharedFd true) (make sharedFd true) := .refl
  have hassign := hmake.tail (a := NetFdEvent.assign 8 1 0) ⟨hidle 1, hidle 0⟩ rfl
  have hread := hassign.tail (a := NetFdEvent.select (.poll 0 7 POLLIN 0)) ⟨.inl rfl, by decide⟩ rfl
  have hwrite := hread.tail (a := NetFdEvent.select (.poll 1 8 POLLOUT 10)) ⟨.inr rfl, by decide⟩ rfl
  have hserved := hwrite.tail (a := NetFdEvent.select (.waitLoop ⟨[5], [], []⟩)) trivial rfl
  have htimeout := hserved.tail (a := NetFdEvent.select (.timeout 1)) trivial rfl
  exact ⟨_, htimeout, rfl, mirrors_of_separate sharedFd true _ htimeout⟩

end SelectIoWait

end CppGo.Netio
