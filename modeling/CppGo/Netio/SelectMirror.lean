import CppGo.Netio.EpollMirror
import CppGo.Netio.SelectRelease

/-!
# The sets of `select` mirror `fd_map`

Every `Poll` waits for `POLLIN` or for `POLLOUT`, and two `NetFD`s with one descriptor
for different events.  Then a bit belongs to one `NetFD` in `fd_map`, so that `PollsetDel`
may clear it for that one.
-/

namespace CppGo.Netio

open CppGo.Lib CppGo.Lib.Machine
open EpollIoWait (Waits)

namespace SelectIoWait

variable {s t : SelectIoWait} {n : Nat} {e : BitVec 32}

def fdSet (s : SelectIoWait) (e : BitVec 32) : Int → Bool :=
  if e = POLLIN then s.fd_read_set else s.fd_write_set

def requests (s : SelectIoWait) (e : BitVec 32) (fd : Int) : Prop :=
  ∃ n ∈ s.fd_map.values, (s.netFd n).fd = fd ∧ s.events n = e

structure Mirrored (s : SelectIoWait) : Prop extends Linked s where
  waits : ∀ n ∈ s.fd_map.values, Waits (s.events n)
  alone : ∀ m ∈ s.fd_map.values, ∀ n ∈ s.fd_map.values, (s.netFd m).fd = (s.netFd n).fd →
    s.events m = s.events n → m = n
  rest : ∀ n ∉ s.fd_map.values, s.events n = 0
  quiet : ∀ n, n ∈ s.fd_map.values ∨ ¬ s.inPoll n → (s.netFd n).revents = 0
  set : ∀ e, Waits e → ∀ fd,
    s.fdSet e fd = true ↔ (e = POLLIN ∧ fd = s.notify_socket) ∨ s.requests e fd
  exception : s.fd_exception_set = fun _ => false
  bound : ∀ e, Waits e → ∀ fd, s.fdSet e fd = true → fd ≤ s.maxfd
  foreign : ∀ n, 0 ≤ (s.netFd n).fd → (s.netFd n).fd ≠ s.notify_socket
  valid : ∀ n ∈ s.fd_map.values, 0 ≤ (s.netFd n).fd

theorem mirrored_make (k : Sockets) (ndebug : Bool) : (make k ndebug).Mirrored := by
  have hset : ∀ e, Waits e → ∀ fd,
      (make k ndebug).fdSet e fd = true ↔ e = POLLIN ∧ fd = k.notify_socket := by
    rintro e (rfl | rfl) fd
    · by_cases hfd : fd = k.notify_socket
      · simp [fdSet, make, hfd]
      · simp [fdSet, make, hfd]
    · apply iff_of_false
      · rw [fdSet, if_neg (by decide)]
        exact Bool.false_ne_true
      · exact fun h => absurd h.1 (by decide)
  have hempty : ∀ n, n ∉ (make k ndebug).fd_map.values := by
    intro n
    exact List.not_mem_nil
  constructor
  case toLinked => exact linked_make k ndebug
  case waits => exact fun n hn => absurd hn (hempty n)
  case alone => exact fun m hm => absurd hm (hempty m)
  case rest =>
    intro n _
    show ofShort 0 = 0
    decide
  case quiet => exact fun n _ => rfl
  case set =>
    intro e he fd
    rw [hset e he fd]
    constructor
    · exact .inl
    · rintro (h | ⟨n, hn, -⟩)
      · exact h
      · exact absurd hn (hempty n)
  case exception => rfl
  case bound =>
    intro e he fd hfd
    rw [((hset e he fd).mp hfd).2]
    show k.notify_socket ≤ if 0 < k.notify_socket then k.notify_socket else 0
    split <;> omega
  case foreign => exact fun n _ => k.distinct n
  case valid => exact fun n hn => absurd hn (hempty n)

/-! ## A bit is cleared -/

structure Cleared (s t : SelectIoWait) (n : Nat) : Prop where
  set : ∀ e, Waits e → t.fdSet e =
    if e = s.events n then Function.update (s.fdSet e) (s.netFd n).fd false else s.fdSet e
  exception : t.fd_exception_set = s.fd_exception_set
  events : ∀ m, t.events m = if m = n then 0 else s.events m
  revents : ∀ m ≠ n, (t.netFd m).revents = (s.netFd m).revents
  maxfd : t.maxfd = s.maxfd
  notify : t.notify_socket = s.notify_socket

theorem ofShort_eq_zero {x : BitVec 16} : ofShort x = 0 ↔ x = 0 := by
  constructor
  · intro h
    have hback : toShort (ofShort x) = x := by
      ext i hi
      have hi' : i < 32 := by omega
      rw [toShort, BitVec.getElem_setWidth, ofShort, BitVec.getLsbD_signExtend]
      simp [hi, hi']
    rw [← hback, h]
    rfl
  · rintro rfl
    rfl

theorem pollsetDel_cleared (hwaits : Waits (s.events n)) :
    Cleared s (s.pollsetDel n (s.events n)) n := by
  have hne : (s.netFd n).events ≠ 0 := by
    intro hzero
    exact hwaits.isFlag.ne_zero (ofShort_eq_zero.mpr hzero)
  have hevents : ofShort (toShort (ofShort (s.netFd n).events &&& ~~~s.events n)) = 0 := by
    show ofShort (toShort (s.events n &&& ~~~s.events n)) = 0
    rcases hwaits with he | he <;> rw [he] <;> decide
  unfold pollsetDel
  dsimp only
  rw [if_neg hne]
  constructor
  case set =>
    rintro e (rfl | rfl)
    · rcases hwaits with he | he <;> rw [he]
      · rfl
      · rfl
    · rcases hwaits with he | he <;> rw [he]
      · rfl
      · rfl
  case exception => rcases hwaits with he | he <;> rw [he] <;> rfl
  case events =>
    intro m
    by_cases hm : m = n
    · subst hm
      dsimp only [SelectIoWait.events]
      rw [if_pos rfl, Function.update_self]
      exact hevents
    · dsimp only [SelectIoWait.events]
      rw [if_neg hm, Function.update_of_ne hm]
  case revents =>
    intro m hm
    exact congrArg NetFD.revents (Function.update_of_ne hm _ _)
  case maxfd => rfl
  case notify => rfl

theorem Mirrored.cleared (h : s.Mirrored) (htaken : Taken s t n) (hn : n ∈ s.fd_map.values)
    (hcleared : Cleared s t n) (htimer : (t.netFd n).timer ≠ .armed) : t.Mirrored := by
  have hvalues : ∀ {m}, m ∈ t.fd_map.values → m ∈ s.fd_map.values ∧ m ≠ n :=
    fun hm => htaken.mem_values.mp hm
  have hevents : ∀ {m}, m ≠ n → t.events m = s.events m := by
    intro m hm
    rw [hcleared.events, if_neg hm]
  have hin : ∀ m, t.inPoll m ↔ s.inPoll m := by
    intro m
    rw [inPoll, htaken.calls, inPoll]
  have hrequests : ∀ e fd, t.requests e fd ↔
      s.requests e fd ∧ ¬ (e = s.events n ∧ fd = (s.netFd n).fd) := by
    intro e fd
    constructor
    · rintro ⟨m, hm, rfl, rfl⟩
      obtain ⟨hms, hmn⟩ := hvalues hm
      rw [hevents hmn, htaken.fd]
      refine ⟨⟨m, hms, rfl, rfl⟩, fun hsame => hmn ?_⟩
      exact h.alone m hms n hn hsame.2 hsame.1
    · rintro ⟨⟨m, hm, rfl, rfl⟩, hne⟩
      have hmn : m ≠ n := by
        rintro rfl
        exact hne ⟨rfl, rfl⟩
      exact ⟨m, htaken.mem_values.mpr ⟨hm, hmn⟩, htaken.fd m, hevents hmn⟩
  have hset : ∀ e, Waits e → ∀ fd, t.fdSet e fd = true ↔
      s.fdSet e fd = true ∧ ¬ (e = s.events n ∧ fd = (s.netFd n).fd) := by
    intro e he fd
    rw [hcleared.set e he]
    by_cases hsame : e = s.events n
    · by_cases hfd : fd = (s.netFd n).fd
      · simp [hsame, hfd]
      · simp [hsame, hfd]
    · simp [hsame]
  constructor
  case toLinked => exact h.toLinked.taken htaken hn htimer
  case waits =>
    intro m hm
    obtain ⟨hms, hmn⟩ := hvalues hm
    rw [hevents hmn]
    exact h.waits m hms
  case alone =>
    intro m hm k hk hfd he
    obtain ⟨hms, hmn⟩ := hvalues hm
    obtain ⟨hks, hkn⟩ := hvalues hk
    rw [htaken.fd, htaken.fd] at hfd
    rw [hevents hmn, hevents hkn] at he
    exact h.alone m hms k hks hfd he
  case rest =>
    intro m hm
    by_cases hmn : m = n
    · rw [hcleared.events, if_pos hmn]
    · rw [hevents hmn]
      exact h.rest m fun hms => hm (htaken.mem_values.mpr ⟨hms, hmn⟩)
  case quiet =>
    intro m hm
    have hmn : m ≠ n := by
      rintro rfl
      rcases hm with hm | hm
      · exact (hvalues hm).2 rfl
      · exact hm ((hin m).mpr (h.mapped m hn))
    rw [hcleared.revents m hmn]
    apply h.quiet m
    rcases hm with hm | hm
    · exact .inl (hvalues hm).1
    · exact .inr fun hs => hm ((hin m).mpr hs)
  case set =>
    intro e he fd
    rw [hset e he, h.set e he, hrequests, hcleared.notify, or_and_right]
    apply or_congr_left
    apply and_iff_left_of_imp
    rintro ⟨-, rfl⟩ ⟨-, hfd⟩
    exact h.foreign n (h.valid n hn) hfd.symm
  case exception => rw [hcleared.exception, h.exception]
  case bound =>
    intro e he fd hfd
    rw [hcleared.maxfd]
    exact h.bound e he fd ((hset e he fd).mp hfd).1
  case foreign =>
    intro m hm
    rw [htaken.fd] at hm ⊢
    rw [hcleared.notify]
    exact h.foreign m hm
  case valid =>
    intro m hm
    rw [htaken.fd]
    exact h.valid m (hvalues hm).1

/-! ## `WaitLoop` and timeouts -/

/-- A `NetFD` in `fd_map` has no `revents`, so that a round sees what `select` reports. -/
theorem Mirrored.reventsOf (h : s.Mirrored) (hn : n ∈ s.fd_map.values) (ready : Ready) :
    s.reventsOf ready n = s.events n ∨ s.reventsOf ready n = 0 := by
  have hzero : ofShort (s.netFd n).revents = 0 :=
    ofShort_eq_zero.mpr (h.quiet n (.inl hn))
  unfold SelectIoWait.reventsOf
  dsimp only
  rw [hzero]
  rcases h.waits n hn with he | he
  · have he' : ofShort (s.netFd n).events = POLLIN := he
    rw [he, he']
    by_cases hready : (s.netFd n).fd ∈ ready.read
    · left
      simp [hready, POLLIN, POLLOUT, POLLPRI]
    · right
      simp [hready, POLLIN, POLLOUT, POLLPRI]
  · have he' : ofShort (s.netFd n).events = POLLOUT := he
    rw [he, he']
    by_cases hready : (s.netFd n).fd ∈ ready.write
    · left
      simp [hready, POLLIN, POLLOUT, POLLPRI]
    · right
      simp [hready, POLLIN, POLLOUT, POLLPRI]

theorem setRevents_frame {r : BitVec 16} (m : Nat) :
    ((s.setNetFd n { s.netFd n with revents := r }).netFd m).fd = (s.netFd m).fd ∧
      (s.setNetFd n { s.netFd n with revents := r }).events m = s.events m ∧
      ((s.setNetFd n { s.netFd n with revents := r }).netFd m).timer = (s.netFd m).timer := by
  by_cases hm : m = n
  · subst hm
    dsimp only [SelectIoWait.events]
    rw [setNetFd_self]
    exact ⟨rfl, rfl, rfl⟩
  · dsimp only [SelectIoWait.events]
    rw [setNetFd_of_ne hm]
    exact ⟨rfl, rfl, rfl⟩

theorem Cleared.of_same {s' t' : SelectIoWait} (h : Cleared s' t' n)
    (hread : s'.fd_read_set = s.fd_read_set ∧ s'.fd_write_set = s.fd_write_set ∧
      s'.fd_exception_set = s.fd_exception_set ∧ s'.maxfd = s.maxfd ∧
      s'.notify_socket = s.notify_socket)
    (hnet : ∀ m, (s'.netFd m).fd = (s.netFd m).fd ∧ s'.events m = s.events m ∧
      (m ≠ n → (s'.netFd m).revents = (s.netFd m).revents))
    (hread' : t.fd_read_set = t'.fd_read_set ∧ t.fd_write_set = t'.fd_write_set ∧
      t.fd_exception_set = t'.fd_exception_set ∧ t.maxfd = t'.maxfd ∧
      t.notify_socket = t'.notify_socket)
    (hnet' : ∀ m, t.events m = t'.events m ∧ (t.netFd m).revents = (t'.netFd m).revents) :
    Cleared s t n where
  set e he := by
    have hset := h.set e he
    unfold fdSet at hset ⊢
    rw [hread'.1, hread'.2.1, ← (hnet n).2.1, ← (hnet n).1, ← hread.1, ← hread.2.1]
    exact hset
  exception := by rw [hread'.2.2.1, h.exception, hread.2.2.1]
  events m := by rw [(hnet' m).1, h.events, (hnet m).2.1]
  revents m hm := by rw [(hnet' m).2, h.revents m hm, (hnet m).2.2 hm]
  maxfd := by rw [hread'.2.2.2.1, h.maxfd, hread.2.2.2.1]
  notify := by rw [hread'.2.2.2.2, h.notify, hread.2.2.2.2]

theorem setNetFd_events {f : NetFD} (hf : f.events = (s.netFd n).events) (m : Nat) :
    (s.setNetFd n f).events m = s.events m := by
  unfold SelectIoWait.events
  by_cases hm : m = n
  · rw [hm, setNetFd_self, hf]
  · rw [setNetFd_of_ne hm]

theorem wake_cleared {itr : Node Int Nat} (hwaits : Waits (s.events itr.value))
    (hrevents : ofShort (s.netFd itr.value).revents = s.events itr.value) :
    Cleared s (s.wake itr) itr.value := by
  have hcleared := @pollsetDel_cleared { s with fd_map := s.fd_map.erase itr.id } itr.value hwaits
  apply hcleared.of_same (s := s)
  · exact ⟨rfl, rfl, rfl, rfl, rfl⟩
  · exact fun m => ⟨rfl, rfl, fun _ => rfl⟩
  · unfold wake
    dsimp only
    rw [hrevents]
    exact ⟨rfl, rfl, rfl, rfl, rfl⟩
  · intro m
    unfold wake
    dsimp only
    rw [hrevents]
    constructor
    · apply setNetFd_events
      rfl
    · by_cases hm : m = itr.value
      · rw [hm, setNetFd_self]
        rfl
      · rw [setNetFd_of_ne hm]
        rfl

theorem Taken.of_setRevents {r : BitVec 16}
    (h : Taken (s.setNetFd n { s.netFd n with revents := r }) t n) : Taken s t n := by
  have hnet : ∀ m, ((s.setNetFd n { s.netFd n with revents := r }).netFd m).fd = (s.netFd m).fd ∧
      ((s.setNetFd n { s.netFd n with revents := r }).netFd m).owner_task =
        (s.netFd m).owner_task ∧
      ((s.setNetFd n { s.netFd n with revents := r }).netFd m).timer = (s.netFd m).timer := by
    intro m
    by_cases hm : m = n
    · rw [hm, setNetFd_self]
      exact ⟨rfl, rfl, rfl⟩
    · rw [setNetFd_of_ne hm]
      exact ⟨rfl, rfl, rfl⟩
  constructor
  case sub => exact h.sub
  case nodes => exact h.nodes
  case calls => exact h.calls
  case queue =>
    rw [h.queue, (hnet n).2.1]
    rfl
  case fd => exact fun m => (h.fd m).trans (hnet m).1
  case owner => exact fun m => (h.owner m).trans (hnet m).2.1
  case timer => exact fun m hm => (hnet m).2.2 ▸ h.timer m hm
  case ended => exact h.ended

theorem Mirrored.visit (h : s.Mirrored) {ready : Ready} {itr : Node Int Nat}
    (hitr : itr ∈ s.fd_map.nodes) : (SelectIoWait.visit ready s itr).Mirrored := by
  have hn : itr.value ∈ s.fd_map.values := List.mem_map_of_mem hitr
  have hwaits := h.waits itr.value hn
  unfold SelectIoWait.visit
  dsimp only
  rcases h.reventsOf hn ready with hreported | hnone
  · rw [hreported]
    have hback : ofShort (toShort (s.events itr.value)) = s.events itr.value := by
      rcases hwaits with he | he <;> rw [he] <;> decide
    generalize hu : s.setNetFd itr.value
      { s.netFd itr.value with revents := toShort (s.events itr.value) } = u
    have hevents : ∀ m, u.events m = s.events m := by
      rw [← hu]
      exact setNetFd_events rfl
    have hlinked : u.Linked := hu ▸ h.setNetFd rfl rfl rfl
    have hmem : itr ∈ u.fd_map.nodes := hu ▸ hitr
    have hgo : s.events itr.value ≠ 0 ∧ s.events itr.value &&& u.events itr.value ≠ 0 := by
      rw [hevents, BitVec.and_self]
      exact ⟨hwaits.isFlag.ne_zero, hwaits.isFlag.ne_zero⟩
    rw [if_pos hgo]
    obtain ⟨htaken, htimer⟩ := hlinked.wake hmem
    have hcleared : Cleared u (u.wake itr) itr.value := by
      apply wake_cleared
      · rw [hevents]
        exact hwaits
      · rw [hevents, ← hu, setNetFd_self]
        exact hback
    subst hu
    apply h.cleared htaken.of_setRevents hn
    · apply hcleared.of_same (s := s)
      · exact ⟨rfl, rfl, rfl, rfl, rfl⟩
      · intro m
        refine ⟨?_, hevents m, fun hm => ?_⟩
        · exact (setRevents_frame m).1
        · rw [setNetFd_of_ne hm]
      · exact ⟨rfl, rfl, rfl, rfl, rfl⟩
      · exact fun m => ⟨rfl, rfl⟩
    · rw [htimer]
      decide
  · rw [hnone, if_neg fun hgo => hgo.1 rfl]
    have hsame : { s.netFd itr.value with revents := toShort 0 } = s.netFd itr.value := by
      have hquiet := h.quiet _ (.inl hn)
      cases hf : s.netFd itr.value
      rw [hf] at hquiet
      cases hquiet
      rfl
    have hself : s.setNetFd itr.value (s.netFd itr.value) = s := by
      unfold SelectIoWait.setNetFd
      rw [Function.update_eq_self]
    rw [hsame, hself]
    exact h

theorem Mirrored.waitLoop (h : s.Mirrored) (ready : Ready) : (s.waitLoop ready).Mirrored := by
  unfold SelectIoWait.waitLoop
  split
  · exact h
  · exact foldl_visit (fun _ _ h hitr => h.visit hitr) _ _ h s.fd_map.nodup fun _ hitr => hitr

theorem Mirrored.others (h : s.Mirrored) (hn : n ∈ s.fd_map.values) :
    s.others n &&& s.events n = 0 := by
  rw [SelectIoWait.others, Flags.union_and, Flags.union_eq_zero_iff]
  intro x hx
  simp only [List.mem_map, List.mem_filter, mem_entries, decide_eq_true_eq] at hx
  obtain ⟨-, ⟨itr, ⟨⟨hitr, hkey⟩, hne⟩, rfl⟩, rfl⟩ := hx
  have hm : itr.value ∈ s.fd_map.values := List.mem_map_of_mem hitr
  have hdiff : s.events itr.value ≠ s.events n :=
    fun heq => hne (h.alone _ hm _ hn ((h.key itr hitr).trans hkey) heq)
  rcases h.waits _ hm with he | he <;> rcases h.waits _ hn with he' | he' <;> rw [he, he'] at hdiff ⊢
  · exact absurd rfl hdiff
  · decide
  · decide
  · exact absurd rfl hdiff

theorem Mirrored.timeoutCallback (h : s.Mirrored) (hn : n ∈ s.fd_map.values)
    (hlive : s.ended = none) : (s.timeoutCallback n).Mirrored := by
  obtain ⟨htaken, htimer⟩ := h.timeoutCallback_taken hn hlive
  obtain ⟨m, -, heq⟩ := h.timeoutCallback_eq hn hlive
  have hfire : ({ s.fire n with fd_map := m } : SelectIoWait).events n = s.events n :=
    (fire_netFd n).2.2.2
  have hcleared := @pollsetDel_cleared { s.fire n with fd_map := m } n
    (by rw [hfire]; exact h.waits n hn)
  have hclear : ({ s.fire n with fd_map := m } : SelectIoWait).clearUnless n (s.others n) =
      ({ s.fire n with fd_map := m } : SelectIoWait).pollsetDel n
        (({ s.fire n with fd_map := m } : SelectIoWait).events n) := by
    unfold clearUnless
    apply if_pos
    rw [hfire]
    exact h.others hn
  apply h.cleared htaken hn
  · apply hcleared.of_same (s := s)
    · exact ⟨rfl, rfl, rfl, rfl, rfl⟩
    · exact fun k => ⟨(fire_netFd k).1, (fire_netFd k).2.2.2, fun _ => (fire_netFd k).2.2.1⟩
    · rw [heq, hclear]
      exact ⟨rfl, rfl, rfl, rfl, rfl⟩
    · intro k
      rw [heq, hclear]
      exact ⟨rfl, rfl⟩
  · rw [htimer]
    decide

end SelectIoWait

end CppGo.Netio
