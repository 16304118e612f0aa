import CppGo.Netio.EpollWakeups
import CppGo.Netio.SelectMirrorContract
import CppGo.Netio.SelectWakeupsContract

/-!
# `SelectIoWait` and `EpollIoWait` side by side

A Processer has one of the two.  Here both see the same calls of `Poll`, the same timers, and
kernels that report the same events.
-/

namespace CppGo.Netio

open CppGo.Lib

inductive IoEvent
  | poll (n task : Nat) (events : BitVec 32) (timeout : Int)
  /-- the kernel reports descriptors in this order -/
  | waitLoop (reports : List EpollEvent)
  /-- the callback of the timer of a `NetFD` -/
  | timeout (n : Nat)
  /-- `Poll` of the task returns -/
  | pollReturn (n task : Nat)

def Ready.ofReports (reports : List EpollEvent) : Ready :=
  { read := (reports.filter fun e => e.events &&& POLLIN != 0).map EpollEvent.fd
    write := (reports.filter fun e => e.events &&& POLLOUT != 0).map EpollEvent.fd
    exception := (reports.filter fun e => e.events &&& POLLPRI != 0).map EpollEvent.fd }

def IoEvent.select : IoEvent → SelectEvent
  | .poll n task events ms => .poll n task events ms
  | .waitLoop reports => .waitLoop (.ofReports reports)
  | .timeout n => .timeout n
  | .pollReturn _ task => .pollReturn task

def IoEvent.epoll : IoEvent → PollEvent
  | .poll n task events ms => .poll n task events ms
  | .waitLoop reports => .waitLoop reports
  | .timeout n => .timeout n
  | .pollReturn n _ => .pollReturn n

/-- `SelectIoWait::Poll` after the switch; `errno` is the task's before. -/
def SelectIoWait.pollResult (s : SelectIoWait) (c : PollCall) (errno : Nat) : PollResult :=
  if c.timeout > 0 ∧ (s.netFd c.netFd).timer ≠ .none then { ret := -1, errno := ETIME }
  else { ret := 0, errno := errno }

/-- `EpollIoWait::Poll` after the switch. -/
def EpollIoWait.pollResult (s : EpollIoWait) (c : PollCall) (errno : Nat) : PollResult :=
  let revents := ofShort (s.netFd c.netFd).revents
  if c.timeout > 0 ∧ (s.netFd c.netFd).timer ≠ .none then { ret := -1, errno := ETIME }
  else if revents &&& POLLNVAL ≠ 0 then { ret := -1, errno := EBADF }
  else if revents &&& POLL_EXCEPTION ≠ 0 then { ret := -1, errno := errno }
  else { ret := 0, errno := errno }

def EEXIST : Nat := 17
def EINVAL : Nat := 22

/-- `PollsetAdd` returns -1 and `Poll` at once. -/
def SelectIoWait.refuses (s : SelectIoWait) (n : Nat) (events : BitVec 32) : Option PollResult :=
  if s.invalid n events then some { ret := -1, errno := EINVAL } else none

/-- `errno` is `PollsetAdd`'s, or that of `EPOLL_CTL_ADD`. -/
def EpollIoWait.refuses (s : EpollIoWait) (n : Nat) (events : BitVec 32) : Option PollResult :=
  if (s.netFd n).fd < 0 ∨ events = 0 ∨ events &&& ~~~(POLLIN ||| POLLOUT ||| POLLPRI) ≠ 0 then
    some { ret := -1, errno := EINVAL }
  else if (s.pollsetAdd n events).2 then none
  else some { ret := -1, errno := EEXIST }

structure BackEnds where
  select : SelectIoWait
  epoll : EpollIoWait

namespace BackEnds

def make (k : Sockets) (epoll_event_size rlim_max : Nat) (ndebug : Bool) : BackEnds :=
  { select := .make k ndebug
    epoll := .make k epoll_event_size rlim_max ndebug }

def step (b : BackEnds) (a : IoEvent) : Option BackEnds :=
  (b.select.step a.select).bind fun select =>
    (b.epoll.step a.epoll).map fun epoll => { select := select, epoll := epoll }

/-- What both back ends are made for.  A `Poll` waits for one event that no other `NetFD` with
its descriptor waits for, on a descriptor that `select` can hold; its `NetFD` is not in use; a
descriptor that is waited for already is polled through a shared `NetFD` only, and where the
assertions are compiled out.  A report names a descriptor once, with registered events and no
error. -/
def Common (b : BackEnds) : IoEvent → Prop
  | .poll n task events _ => EpollIoWait.Waits events ∧ b.select.calls task = none ∧
      (b.select.netFd n).owner_task = none ∧ (b.select.netFd n).fd < FD_SETSIZE ∧
      (∀ m ∈ b.select.fd_map.values, (b.select.netFd m).fd = (b.select.netFd n).fd →
        b.select.events m ≠ events) ∧
      (b.select.entries (b.select.netFd n).fd = [] ∨
        (b.select.netFd n).shared = true ∧ b.epoll.ndebug = true)
  | .waitLoop reports => (reports.map EpollEvent.fd).Nodup ∧
      (∀ e ∈ reports, b.epoll.mayReport e = true ∧ e.events &&& POLL_EXCEPTION = 0) ∧
      reports.length ≤ b.epoll.event_list_size
  | .timeout _ => True
  | .pollReturn n task => ∃ c, b.select.calls task = some c ∧ c.netFd = n

end BackEnds

/-! ## What the operations leave as it is -/

namespace EpollIoWait

variable {s t : EpollIoWait} {n : Nat}

theorem assert_ndebug (a : Assertion) (cond : Bool) : (s.assert a cond).ndebug = s.ndebug := by
  unfold assert
  split <;> rfl

theorem settle_frame (fd : Int) (modEvents : BitVec 32) :
    (s.settle fd modEvents).fd_map = s.fd_map ∧ (s.settle fd modEvents).netFd = s.netFd ∧
      (s.settle fd modEvents).pushed = s.pushed ∧ (s.settle fd modEvents).ndebug = s.ndebug ∧
      (s.settle fd modEvents).notify_socket = s.notify_socket := by
  unfold settle ctlDel ctlMod assert
  dsimp only
  split <;> split
  · exact ⟨rfl, rfl, rfl, rfl, rfl⟩
  · simp only [Bool.false_eq_true, if_false]
    split <;> exact ⟨rfl, rfl, rfl, rfl, rfl⟩
  · exact ⟨rfl, rfl, rfl, rfl, rfl⟩
  · exact ⟨rfl, rfl, rfl, rfl, rfl⟩

theorem serve_nextId (comeEvents : BitVec 32) (itrs : List (Node Int Nat)) (s : EpollIoWait)
    (modEvents : BitVec 32) :
    (serve comeEvents itrs s modEvents).1.fd_map.nextId = s.fd_map.nextId := by
  induction itrs generalizing s modEvents with
  | nil => rfl
  | cons itr itrs ih =>
      rw [serve, ih]
      split <;> rfl

theorem report_frame (s : EpollIoWait) (e : EpollEvent) :
    (s.report e).fd_map.nextId = s.fd_map.nextId ∧ (s.report e).ndebug = s.ndebug ∧
      (s.report e).notify_socket = s.notify_socket ∧
      (s.report e).epoll.lookup s.notify_socket = s.epoll.lookup s.notify_socket := by
  have hassert : ∀ cond, (s.assert .reported cond).fd_map = s.fd_map ∧
      (s.assert .reported cond).notify_socket = s.notify_socket ∧
      (s.assert .reported cond).epoll = s.epoll := by
    intro cond
    unfold assert
    split <;> exact ⟨rfl, rfl, rfl⟩
  unfold report
  split
  · exact ⟨rfl, rfl, rfl, rfl⟩
  split
  · exact ⟨rfl, rfl, rfl, rfl⟩
  rename_i hne
  dsimp only
  generalize hu : s.assert .reported (!(s.entries e.fd).isEmpty) = u
  have hmap : u.fd_map = s.fd_map := hu ▸ (hassert _).1
  have hnotify : u.notify_socket = s.notify_socket := hu ▸ (hassert _).2.1
  have hepoll : u.epoll = s.epoll := hu ▸ (hassert _).2.2
  have hndebug : u.ndebug = s.ndebug := hu ▸ assert_ndebug _ _
  split
  · exact ⟨congrArg Multimap.nextId hmap, hndebug, hnotify, by rw [hepoll]⟩
  · obtain ⟨hmap', -, -, hndebug', hnotify'⟩ := @settle_frame
      (serve e.events (u.entries e.fd) u 0).1 e.fd
      ((serve e.events (u.entries e.fd) u 0).2 &&& ~~~e.events)
    obtain ⟨hserved, -⟩ := serve_spec e.events (u.entries e.fd) u 0
    refine ⟨?_, ?_, ?_, ?_⟩
    · rw [hmap', serve_nextId, hmap]
    · rw [hndebug', serve_ndebug, hndebug]
    · rw [hnotify', hserved.notify, hnotify]
    · rw [elsewhere_settle.lookup _ (Ne.symm hne), hserved.epoll, hepoll]

theorem waitLoop_frame (reports : List EpollEvent) (s : EpollIoWait) :
    (s.waitLoop reports).fd_map.nextId = s.fd_map.nextId ∧
      (s.waitLoop reports).ndebug = s.ndebug ∧
      (s.waitLoop reports).notify_socket = s.notify_socket ∧
      (s.waitLoop reports).epoll.lookup s.notify_socket = s.epoll.lookup s.notify_socket := by
  induction reports generalizing s with
  | nil => exact ⟨rfl, rfl, rfl, rfl⟩
  | cons e reports ih =>
      obtain ⟨hid, hndebug, hnotify, hlookup⟩ := s.report_frame e
      obtain ⟨hid', hndebug', hnotify', hlookup'⟩ := ih (s.report e)
      rw [hnotify, hlookup] at hlookup'
      exact ⟨hid'.trans hid, hndebug'.trans hndebug, hnotify'.trans hnotify, hlookup'⟩

theorem dropNetFd_frame (n : Nat) (itrs : List (Node Int Nat)) (s : EpollIoWait)
    (modEvents : BitVec 32) :
    (dropNetFd n itrs s modEvents).1.fd_map.nextId = s.fd_map.nextId ∧
      (dropNetFd n itrs s modEvents).1.pushed = s.pushed ∧
      (dropNetFd n itrs s modEvents).1.ndebug = s.ndebug := by
  induction itrs generalizing s modEvents with
  | nil => exact ⟨rfl, rfl, rfl⟩
  | cons itr itrs ih =>
      unfold dropNetFd
      split
      · exact ih _ _
      · exact ih s _

theorem pollsetAdd_frame (events : BitVec 32) :
    (s.pollsetAdd n events).1.ndebug = s.ndebug ∧
      (s.pollsetAdd n events).1.pushed = s.pushed := by
  have hhelp : ∀ events, (s.pollsetAddHelp n events).1.ndebug = s.ndebug ∧
      (s.pollsetAddHelp n events).1.pushed = s.pushed := by
    intro events
    unfold pollsetAddHelp resize
    dsimp only
    split
    · exact ⟨rfl, rfl⟩
    · split <;> exact ⟨rfl, rfl⟩
  have hmodify : ∀ (u : EpollIoWait) fd events, (u.pollsetModify fd events).ndebug = u.ndebug ∧
      (u.pollsetModify fd events).pushed = u.pushed := by
    intro u fd events
    unfold pollsetModify ctlMod assert
    dsimp only
    split <;> split <;> first | exact ⟨rfl, rfl⟩ | (split <;> exact ⟨rfl, rfl⟩)
  unfold pollsetAdd
  dsimp only
  split
  · exact ⟨rfl, rfl⟩
  split
  · exact hhelp _
  split
  · exact hmodify _ _ _
  · exact ⟨rfl, rfl⟩

end EpollIoWait

namespace SelectIoWait

variable {s : SelectIoWait} {n : Nat}

theorem wake_frame (s : SelectIoWait) (itr : Node Int Nat) :
    (s.wake itr).fd_map = s.fd_map.erase itr.id ∧
      (s.wake itr).notify_socket = s.notify_socket := by
  obtain ⟨hmap, -, -, -, -, hnotify, -⟩ := @pollsetDel_frame
    { s with fd_map := s.fd_map.erase itr.id } itr.value (ofShort (s.netFd itr.value).revents)
  exact ⟨hmap, hnotify⟩

theorem visit_frame (ready : Ready) (s : SelectIoWait) (itr : Node Int Nat) :
    (visit ready s itr).fd_map.nextId = s.fd_map.nextId ∧
      (visit ready s itr).notify_socket = s.notify_socket := by
  unfold visit
  dsimp only
  split
  · obtain ⟨hmap, hnotify⟩ := wake_frame (s.setNetFd itr.value
      { s.netFd itr.value with revents := toShort (s.reventsOf ready itr.value) }) itr
    refine ⟨?_, hnotify⟩
    rw [hmap]
    rfl
  · exact ⟨rfl, rfl⟩

theorem waitLoop_frame (s : SelectIoWait) (ready : Ready) :
    (s.waitLoop ready).fd_map.nextId = s.fd_map.nextId ∧
      (s.waitLoop ready).notify_socket = s.notify_socket := by
  have hfold : ∀ (itrs : List (Node Int Nat)) (u : SelectIoWait),
      (itrs.foldl (visit ready) u).fd_map.nextId = u.fd_map.nextId ∧
        (itrs.foldl (visit ready) u).notify_socket = u.notify_socket := by
    intro itrs
    induction itrs with
    | nil => exact fun u => ⟨rfl, rfl⟩
    | cons itr itrs ih =>
        intro u
        obtain ⟨hid, hnotify⟩ := visit_frame ready u itr
        obtain ⟨hid', hnotify'⟩ := ih (visit ready u itr)
        exact ⟨hid'.trans hid, hnotify'.trans hnotify⟩
  unfold waitLoop
  split
  · exact ⟨rfl, rfl⟩
  · exact hfold _ s

theorem dropNetFd_nextId (n : Nat) (itrs : List (Node Int Nat)) (s : SelectIoWait)
    (modEvents : BitVec 32) :
    (dropNetFd n itrs s modEvents).1.fd_map.nextId = s.fd_map.nextId := by
  induction itrs generalizing s modEvents with
  | nil => rfl
  | cons itr itrs ih =>
      unfold dropNetFd
      split
      · exact ih _ _
      · exact ih s _

theorem timeoutCallback_nextId (s : SelectIoWait) (n : Nat) :
    (s.timeoutCallback n).fd_map.nextId = s.fd_map.nextId := by
  have hassert : ∀ (u : SelectIoWait) cond, (u.assert cond).fd_map = u.fd_map := by
    intro u cond
    exact assert_frame.1
  have hdel : ∀ u : SelectIoWait, (u.pollsetTimeoutDel n).fd_map.nextId = u.fd_map.nextId := by
    intro u
    unfold pollsetTimeoutDel
    dsimp only
    split
    · rw [hassert]
    · split
      · rw [pollsetDel_frame.1, dropNetFd_nextId, hassert]
      · rw [dropNetFd_nextId, hassert]
  unfold timeoutCallback
  dsimp only
  split <;> exact hdel _

end SelectIoWait

end CppGo.Netio
