import CppGo.Netio.TimedPoll

/-!
# A timeout is reported when it has happened

Every call of `Poll` goes through a few phases, and only the Processer that it was made
on moves it from one to the next, until it is resumed.  The contract holds as long as no
task is resumed while it is being woken.
-/

namespace CppGo.Netio

open CppGo.Lib CppGo.Lib.Arrivals CppGo.Lib.Machine

/-- The task is in a queue, or on its way to one. -/
def Place.ready : Place → Bool
  | .queued _ | .stolen => true
  | _ => false

def ThreadPc.serving : ThreadPc → Option Nat
  | .idle => none
  | .found r | .pushed r | .erased r | .firing r => some r

def ThreadPc.Own (pc : ThreadPc) (r : Nat) : Prop :=
  pc.serving = none ∨ pc.serving = some r

theorem ThreadPc.Own.ne {pc : ThreadPc} {r q : Nat} (h : pc.Own r) (hne : q ≠ r) :
    pc.serving ≠ some q := by
  rcases h with hpc | hpc
  · rw [hpc]
    nofun
  · rw [hpc]
    intro heq
    exact hne (Option.some.inj heq).symm

def Armed (f : PolledFd) (r : Nat) (c : Registration) : Prop :=
  if c.timeout > 0 then c.timer = .armed ∧ f.timer = some r
  else c.timer = .none ∧ f.timer = none

/-- Where a call of `Poll` is between its switch and its return. -/
inductive Phase (pc : ThreadPc) (f : PolledFd) (r : Nat) (c : Registration) : Prop
  | waiting (hpc : pc.serving ≠ some r) (hplace : f.place = .suspended)
      (hmapped : f.mapped = some c.home) (htimer : Armed f r c)
  | found (hpc : pc = .found r) (hplace : f.place = .suspended)
      (hmapped : f.mapped = some c.home) (htimer : Armed f r c)
  | pushed (hpc : pc = .pushed r) (hplace : f.place.ready = true)
      (hmapped : f.mapped = some c.home) (htimer : Armed f r c)
  | erased (hpc : pc = .erased r) (hplace : f.place.ready = true)
      (hmapped : f.mapped = none) (htimer : Armed f r c)
  | firing (hpc : pc = .firing r) (hplace : f.place = .suspended)
      (hmapped : f.mapped = none) (htimed : c.timeout > 0)
      (htimer : c.timer = .ran ∧ f.timer = some r)
  | served (hpc : pc.serving ≠ some r) (hplace : f.place.ready = true)
      (hmapped : f.mapped = none) (htimer : c.timer ≠ .armed ∧ c.timer ≠ .ran ∧ f.timer = none)
  | expired (hpc : pc.serving ≠ some r) (hplace : f.place.ready = true)
      (hmapped : f.mapped = none) (htimed : c.timeout > 0)
      (htimer : c.timer = .ran ∧ f.timer = some r)

theorem Phase.other {pc pc' : ThreadPc} {f : PolledFd} {r : Nat} {c : Registration}
    (h : Phase pc f r c) (hpc : pc.serving ≠ some r) (hpc' : pc'.serving ≠ some r) :
    Phase pc' f r c := by
  cases h with
  | waiting _ hplace hmapped htimer => exact .waiting hpc' hplace hmapped htimer
  | served _ hplace hmapped htimer => exact .served hpc' hplace hmapped htimer
  | expired _ hplace hmapped htimed htimer => exact .expired hpc' hplace hmapped htimed htimer
  | found hpc₀ => exact absurd (by rw [hpc₀]; rfl) hpc
  | pushed hpc₀ => exact absurd (by rw [hpc₀]; rfl) hpc
  | erased hpc₀ => exact absurd (by rw [hpc₀]; rfl) hpc
  | firing hpc₀ => exact absurd (by rw [hpc₀]; rfl) hpc

namespace PollSystem

variable {s s' : PollSystem}

/-- `Poll` will return through its last test, which leaves `errno` alone. -/
def failsPlainly (c : Registration) (f : PolledFd) : Bool :=
  !(decide (c.timeout > 0) && f.timer.isSome) && ofShort f.revents &&& POLLNVAL == 0 &&
    ofShort f.revents &&& POLL_EXCEPTION != 0

/-- A task is not resumed between the push and the end of `StopTimer` of the `WaitLoop`
that wakes it, and where `Poll` fails with an exception `errno` is not `ETIME`. -/
def undisturbed (s : PollSystem) : PollStep → Bool
  | .resume _ n errno =>
      match (s.netFd n).owner with
      | none => true
      | some r =>
          match s.calls[r]? with
          | none => true
          | some c =>
              s.pc c.home != .pushed r && s.pc c.home != .erased r &&
                !(failsPlainly c (s.netFd n) && errno == ETIME)
  | _ => true

structure Tracked (s : PollSystem) : Prop where
  active : ∀ (r : Nat) (c : Registration), s.calls[r]? = some c → c.result = none →
    (s.netFd c.netFd).owner = some r ∧ Phase (s.pc c.home) (s.netFd c.netFd) r c
  owned : ∀ (n r : Nat), (s.netFd n).owner = some r →
    ∃ c, s.calls[r]? = some c ∧ c.netFd = n ∧ c.result = none
  free : ∀ n, (s.netFd n).owner = none →
    (s.netFd n).place = .running ∧ (s.netFd n).mapped = none ∧ (s.netFd n).timer = none
  serving : ∀ (p r : Nat), (s.pc p).serving = some r →
    ∃ c, s.calls[r]? = some c ∧ c.home = p ∧ c.result = none
  done : ∀ (r : Nat) (c : Registration) (res : PollResult), s.calls[r]? = some c →
    c.result = some res →
      c.timer ≠ .armed ∧ (res.ret = -1 ∧ res.errno = ETIME ↔ c.timer = .ran)
  punctual : s.late = false

theorem tracked_make : make.Tracked := by
  constructor <;> simp [make, ThreadPc.serving]

namespace Tracked

variable {r : Nat} {c c' : Registration}

/-- A call moves on to its next phase; only its own thread can take part. -/
theorem advance {f' : PolledFd} {pc' : ThreadPc} (h : s.Tracked) (hc : s.calls[r]? = some c)
    (hres : c.result = none) (hcalls : s'.calls = s.calls.set r c')
    (hnet : s'.netFd = Function.update s.netFd c.netFd f')
    (hpc : s'.pc = Function.update s.pc c.home pc')
    (hsame : c'.netFd = c.netFd ∧ c'.home = c.home ∧ c'.result = none)
    (howner : f'.owner = some r) (hphase : Phase pc' f' r c')
    (hthread : pc' = s.pc c.home ∨ (s.pc c.home).Own r ∧ pc'.Own r)
    (hlate : s'.late = s.late) : s'.Tracked := by
  have hget : ∀ (q : Nat) (d : Registration), s'.calls[q]? = some d ↔
      q = r ∧ d = c' ∨ q ≠ r ∧ s.calls[q]? = some d := by
    intro q d
    rw [hcalls]
    exact getElem?_set_iff hc
  have hself : s'.netFd c.netFd = f' := by rw [hnet, Function.update_self]
  have hother : ∀ n ≠ c.netFd, s'.netFd n = s.netFd n := fun n hn => by
    rw [hnet, Function.update_of_ne hn]
  have hpcSelf : s'.pc c.home = pc' := by rw [hpc, Function.update_self]
  have hpcOther : ∀ p ≠ c.home, s'.pc p = s.pc p := fun p hp => by
    rw [hpc, Function.update_of_ne hp]
  have hownerOld := (h.active r c hc hres).1
  constructor
  case active =>
    intro q d hq hd
    rcases (hget q d).mp hq with ⟨rfl, rfl⟩ | ⟨hne, hq⟩
    · rw [hsame.1, hsame.2.1, hself, hpcSelf]
      exact ⟨howner, hphase⟩
    · obtain ⟨hqowner, hqphase⟩ := h.active q d hq hd
      have hn : d.netFd ≠ c.netFd := by
        intro heq
        rw [heq, hownerOld] at hqowner
        exact hne (by simpa using hqowner.symm)
      rw [hother _ hn]
      refine ⟨hqowner, ?_⟩
      by_cases hp : d.home = c.home
      · rw [hp, hpcSelf]
        rw [hp] at hqphase
        rcases hthread with rfl | ⟨hbefore, hafter⟩
        · exact hqphase
        · exact hqphase.other (hbefore.ne hne) (hafter.ne hne)
      · rw [hpcOther _ hp]
        exact hqphase
  case owned =>
    intro n q hq
    by_cases hn : n = c.netFd
    · rw [hn, hself, howner] at hq
      cases hq
      exact ⟨c', (hget r c').mpr (.inl ⟨rfl, rfl⟩), hsame.1.trans hn.symm, hsame.2.2⟩
    · rw [hother n hn] at hq
      obtain ⟨d, hd, hdn, hdres⟩ := h.owned n q hq
      refine ⟨d, (hget q d).mpr (.inr ⟨?_, hd⟩), hdn, hdres⟩
      rintro rfl
      rw [hc] at hd
      cases hd
      exact hn hdn.symm
  case free =>
    intro n hn
    by_cases hnc : n = c.netFd
    · rw [hnc, hself, howner] at hn
      cases hn
    · rw [hother n hnc] at hn ⊢
      exact h.free n hn
  case serving =>
    intro p q hq
    by_cases hp : p = c.home
    · rw [hp, hpcSelf] at hq
      by_cases hqr : q = r
      · subst hqr
        exact ⟨c', (hget q c').mpr (.inl ⟨rfl, rfl⟩), hsame.2.1.trans hp.symm, hsame.2.2⟩
      · rcases hthread with rfl | ⟨-, hafter⟩
        · obtain ⟨d, hd, hdp, hdres⟩ := h.serving c.home q hq
          exact ⟨d, (hget q d).mpr (.inr ⟨hqr, hd⟩), hdp.trans hp.symm, hdres⟩
        · exact absurd hq (hafter.ne hqr)
    · rw [hpcOther p hp] at hq
      obtain ⟨d, hd, hdp, hdres⟩ := h.serving p q hq
      refine ⟨d, (hget q d).mpr (.inr ⟨?_, hd⟩), hdp, hdres⟩
      rintro rfl
      rw [hc] at hd
      cases hd
      exact hp hdp.symm
  case done =>
    intro q d res hq hd
    rcases (hget q d).mp hq with ⟨rfl, rfl⟩ | ⟨-, hq⟩
    · rw [hsame.2.2] at hd
      cases hd
    · exact h.done q d res hq hd
  case punctual =>
    rw [hlate]
    exact h.punctual

theorem advance_same {f' : PolledFd} {pc' : ThreadPc} (h : s.Tracked)
    (hc : s.calls[r]? = some c) (hres : c.result = none) (hcalls : s'.calls = s.calls)
    (hnet : s'.netFd = Function.update s.netFd c.netFd f')
    (hpc : s'.pc = Function.update s.pc c.home pc') (howner : f'.owner = some r)
    (hphase : Phase pc' f' r c)
    (hthread : pc' = s.pc c.home ∨ (s.pc c.home).Own r ∧ pc'.Own r)
    (hlate : s'.late = s.late) : s'.Tracked := by
  have hset : s.calls.set r c = s.calls := by
    obtain ⟨hlt, hget⟩ := List.getElem?_eq_some_iff.mp hc
    rw [← hget, List.set_getElem_self]
  exact h.advance hc hres (by rw [hcalls, hset]) hnet hpc ⟨rfl, rfl, hres⟩ howner hphase hthread
    hlate

theorem late_use (hres : c.result = none) : (s.use c).late = s.late := by
  simp [use, hres]

theorem at_pc {p : Nat} (h : s.Tracked) (hpc : (s.pc p).serving = some r)
    (hc : s.calls[r]? = some c) :
    c.home = p ∧ c.result = none ∧ (s.netFd c.netFd).owner = some r ∧
      Phase (s.pc p) (s.netFd c.netFd) r c := by
  obtain ⟨d, hd, rfl, hres⟩ := h.serving p r hpc
  rw [hc] at hd
  cases hd
  exact ⟨rfl, hres, h.active r c hc hres⟩

theorem setRevents {p n : Nat} {revents : BitVec 16} (h : s.Tracked) (hidle : s.pc p = .idle)
    (hmapped : (s.netFd n).mapped = some p) (howner : (s.netFd n).owner = some r) :
    ((s.setNetFd n { s.netFd n with revents := revents }).setPc p (.found r)).Tracked := by
  obtain ⟨c, hc, rfl, hres⟩ := h.owned n r howner
  obtain ⟨-, hphase⟩ := h.active r c hc hres
  have hhome : c.home = p := by
    cases hphase with
    | waiting _ _ hm | found _ _ hm | pushed _ _ hm =>
        rw [hm] at hmapped
        exact Option.some.inj hmapped
    | erased _ _ hm | firing _ _ hm | served _ _ hm | expired _ _ hm =>
        rw [hm] at hmapped
        cases hmapped
  subst hhome
  refine h.advance_same hc hres rfl rfl rfl howner ?_ (.inr ⟨?_, .inr rfl⟩) rfl
  · rw [hidle] at hphase
    cases hphase with
    | waiting _ hplace hm htimer => exact .found rfl hplace hm htimer
    | served _ _ hm | expired _ _ hm =>
        rw [hm] at hmapped
        cases hmapped
    | found hpc | pushed hpc | erased hpc | firing hpc => cases hpc
  · rw [hidle]
    exact .inl rfl

theorem push {p : Nat} (h : s.Tracked) (hpc : s.pc p = .found r) (hc : s.calls[r]? = some c) :
    ((s.removeNetFd2TaskRunnable c).setPc p (.pushed r)).Tracked := by
  obtain ⟨rfl, hres, howner, hphase⟩ := h.at_pc (by rw [hpc]; rfl) hc
  refine h.advance_same hc hres rfl rfl rfl howner ?_ (.inr ⟨?_, .inr rfl⟩) (late_use hres)
  · rw [hpc] at hphase
    cases hphase with
    | found _ _ hm htimer => exact .pushed rfl rfl hm htimer
    | waiting hne | served hne | expired hne => exact absurd rfl hne
    | pushed hne | erased hne | firing hne => cases hne
  · rw [hpc]
    exact .inr rfl

theorem erase {p : Nat} (h : s.Tracked) (hpc : s.pc p = .pushed r) (hc : s.calls[r]? = some c) :
    ((s.setNetFd c.netFd { s.netFd c.netFd with mapped := none }).setPc p (.erased r)).Tracked := by
  obtain ⟨rfl, hres, howner, hphase⟩ := h.at_pc (by rw [hpc]; rfl) hc
  refine h.advance_same hc hres rfl rfl rfl howner ?_ (.inr ⟨?_, .inr rfl⟩) rfl
  · rw [hpc] at hphase
    cases hphase with
    | pushed _ hplace _ htimer => exact .erased rfl hplace rfl htimer
    | waiting hne | served hne | expired hne => exact absurd rfl hne
    | found hne | erased hne | firing hne => cases hne
  · rw [hpc]
    exact .inr rfl

theorem stopTimer {p : Nat} (h : s.Tracked) (hpc : s.pc p = .erased r)
    (hc : s.calls[r]? = some c) : ((s.stopTimer c).setPc p .idle).Tracked := by
  obtain ⟨rfl, hres, howner, hphase⟩ := h.at_pc (by rw [hpc]; rfl) hc
  have hown : (s.pc c.home).Own r := by
    rw [hpc]
    exact .inr rfl
  rw [hpc] at hphase
  cases hphase with
  | waiting hne | served hne | expired hne => exact absurd rfl hne
  | found hne | pushed hne | firing hne => cases hne
  | erased _ hplace hm htimer =>
      unfold Armed at htimer
      split at htimer
      · -- the timer of this call is disarmed
        have htimer' : ((s.use c).netFd c.netFd).timer = some r := htimer.2
        have hc' : (s.use c).calls[r]? = some c := hc
        have hstop : s.stopTimer c =
            ((s.use c).setCall r { c with timer := .stopped }).setNetFd c.netFd
              { s.netFd c.netFd with timer := none } := by
          unfold PollSystem.stopTimer
          simp only [htimer', hc', if_pos htimer.1]
          rfl
        rw [hstop]
        refine @advance _ _ _ _ { c with timer := .stopped } _ _ h hc hres rfl rfl rfl
          ⟨rfl, rfl, hres⟩ howner ?_ (.inr ⟨hown, .inl rfl⟩) (late_use hres)
        exact .served nofun hplace hm ⟨nofun, nofun, rfl⟩
      · have htimer' : ((s.use c).netFd c.netFd).timer = none := htimer.2
        have hstop : s.stopTimer c = (s.use c).setNetFd c.netFd (s.netFd c.netFd) := by
          unfold PollSystem.stopTimer
          simp [htimer.2, setNetFd, use]
        rw [hstop]
        refine h.advance_same hc hres rfl rfl rfl howner ?_ (.inr ⟨hown, .inl rfl⟩) (late_use hres)
        refine .served nofun hplace hm ⟨?_, ?_, htimer.2⟩ <;> rw [htimer.1] <;> nofun

theorem fire (h : s.Tracked) (hc : s.calls[r]? = some c) (hpc : s.pc c.home = .idle)
    (harmed : c.timer = .armed) : ((s.fire r c).setPc c.home (.firing r)).Tracked := by
  have hres : c.result = none := by
    cases hr : c.result with
    | none => rfl
    | some res => exact absurd harmed (h.done r c res hc hr).1
  obtain ⟨howner, hphase⟩ := h.active r c hc hres
  refine @advance _ _ _ _ { c with timer := .ran } _ _ h hc hres rfl rfl rfl ⟨rfl, rfl, hres⟩
    howner ?_ (.inr ⟨?_, .inr rfl⟩) (late_use hres)
  · rw [hpc] at hphase
    cases hphase with
    | waiting _ hplace _ htimer =>
        unfold Armed at htimer
        split at htimer
        · rename_i htimed
          exact .firing rfl hplace rfl htimed ⟨rfl, htimer.2⟩
        · rw [harmed] at htimer
          cases htimer.1
    | found hne | pushed hne | erased hne | firing hne => cases hne
    | served _ _ _ htimer => exact absurd harmed htimer.1
    | expired _ _ _ _ htimer =>
        rw [harmed] at htimer
        cases htimer.1
  · rw [hpc]
    exact .inl rfl

theorem firePush {p : Nat} (h : s.Tracked) (hpc : s.pc p = .firing r)
    (hc : s.calls[r]? = some c) :
    ((s.removeNetFd2TaskRunnable c).setPc p .idle).Tracked := by
  obtain ⟨rfl, hres, howner, hphase⟩ := h.at_pc (by rw [hpc]; rfl) hc
  refine h.advance_same hc hres rfl rfl rfl howner ?_ (.inr ⟨?_, .inl rfl⟩) (late_use hres)
  · rw [hpc] at hphase
    cases hphase with
    | firing _ _ hm htimed htimer => exact .expired nofun rfl hm htimed htimer
    | waiting hne | served hne | expired hne => exact absurd rfl hne
    | found hne | pushed hne | erased hne => cases hne
  · rw [hpc]
    exact .inr rfl

theorem move {n : Nat} {place : Place} (h : s.Tracked) (hready : (s.netFd n).place.ready = true)
    (hplace : place.ready = true) : (s.setNetFd n { s.netFd n with place := place }).Tracked := by
  cases howner : (s.netFd n).owner with
  | none =>
      rw [(h.free n howner).1] at hready
      cases hready
  | some r =>
      obtain ⟨c, hc, rfl, hres⟩ := h.owned n r howner
      obtain ⟨-, hphase⟩ := h.active r c hc hres
      have hpc : (s.setNetFd c.netFd { s.netFd c.netFd with place := place }).pc =
          Function.update s.pc c.home (s.pc c.home) := by
        rw [Function.update_eq_self]
        rfl
      refine h.advance_same hc hres rfl rfl hpc howner ?_ (.inl rfl) rfl
      cases hphase with
      | pushed hpc _ hm htimer => exact .pushed hpc hplace hm htimer
      | erased hpc _ hm htimer => exact .erased hpc hplace hm htimer
      | served hpc _ hm htimer => exact .served hpc hplace hm htimer
      | expired hpc _ hm htimed htimer => exact .expired hpc hplace hm htimed htimer
      | waiting _ hp | found _ hp | firing _ hp =>
          rw [hp] at hready
          cases hready

theorem poll {p n : Nat} {timeout : Int} (h : s.Tracked) (howner : (s.netFd n).owner = none) :
    (s.poll p n timeout).Tracked := by
  obtain ⟨-, -, htimer⟩ := h.free n howner
  have hget : ∀ (q : Nat) (d : Registration), (s.poll p n timeout).calls[q]? = some d ↔
      s.calls[q]? = some d ∨ q = s.calls.length ∧ d =
        { netFd := n, home := p, timeout := timeout
          timer := if timeout > 0 then .armed else .none, result := none } :=
    fun q d => getElem?_concat_iff
  have hself : (s.poll p n timeout).netFd n =
      { s.netFd n with
        owner := some s.calls.length
        timer := if timeout > 0 then some s.calls.length else (s.netFd n).timer
        mapped := some p
        place := .suspended } := Function.update_self _ _ _
  have hother : ∀ m ≠ n, (s.poll p n timeout).netFd m = s.netFd m :=
    fun m hm => Function.update_of_ne hm _ _
  have hpc : (s.poll p n timeout).pc = s.pc := rfl
  constructor
  case active =>
    intro q d hq hd
    rcases (hget q d).mp hq with hq | ⟨rfl, rfl⟩
    · obtain ⟨hqowner, hqphase⟩ := h.active q d hq hd
      have hn : d.netFd ≠ n := by
        intro heq
        rw [heq, howner] at hqowner
        cases hqowner
      rw [hother _ hn]
      exact ⟨hqowner, hqphase⟩
    · rw [show Registration.netFd _ = n from rfl, hself]
      refine ⟨rfl, .waiting ?_ rfl rfl ?_⟩
      · intro hserving
        obtain ⟨d, hd, -⟩ := h.serving p _ hserving
        exact absurd (List.getElem?_eq_some_iff.mp hd).1 (Nat.lt_irrefl _)
      · unfold Armed
        by_cases htimed : timeout > 0
        · simp [htimed]
        · simp [htimed, htimer]
  case owned =>
    intro m q hq
    by_cases hm : m = n
    · rw [hm, hself] at hq
      cases hq
      exact ⟨_, (hget _ _).mpr (.inr ⟨rfl, rfl⟩), hm.symm, rfl⟩
    · rw [hother m hm] at hq
      obtain ⟨d, hd, hdm, hdres⟩ := h.owned m q hq
      exact ⟨d, (hget q d).mpr (.inl hd), hdm, hdres⟩
  case free =>
    intro m hm
    by_cases hmn : m = n
    · rw [hmn, hself] at hm
      cases hm
    · rw [hother m hmn] at hm ⊢
      exact h.free m hm
  case serving =>
    intro p' q hq
    obtain ⟨d, hd, hdp, hdres⟩ := h.serving p' q hq
    exact ⟨d, (hget q d).mpr (.inl hd), hdp, hdres⟩
  case done =>
    intro q d res hq hd
    rcases (hget q d).mp hq with hq | ⟨-, rfl⟩
    · exact h.done q d res hq hd
    · cases hd
  case punctual => exact h.punctual

theorem pollResult_expired {f : PolledFd} {errno : Nat} (htimed : c.timeout > 0)
    (htimer : f.timer = some r) : pollResult c f errno = { ret := -1, errno := ETIME } := by
  unfold pollResult
  rw [if_pos ⟨htimed, by rw [htimer]; nofun⟩]

theorem pollResult_served {f : PolledFd} {errno : Nat} (htimer : f.timer = none)
    (herrno : (failsPlainly c f && errno == ETIME) = false) :
    ¬ ((pollResult c f errno).ret = -1 ∧ (pollResult c f errno).errno = ETIME) := by
  unfold pollResult
  rw [if_neg (by simp [htimer])]
  split
  · rintro ⟨-, hetime⟩
    cases hetime
  · rename_i hnval
    split
    · rename_i hexc
      rintro ⟨-, rfl⟩
      simp_all [failsPlainly]
    · rintro ⟨hret, -⟩
      cases hret

theorem resume {p errno : Nat} (h : s.Tracked) (hc : s.calls[r]? = some c)
    (hres : c.result = none) (hplace : (s.netFd c.netFd).place = .queued p)
    (hpushed : s.pc c.home ≠ .pushed r) (herased : s.pc c.home ≠ .erased r)
    (herrno : (failsPlainly c (s.netFd c.netFd) && errno == ETIME) = false) :
    (s.resume r c errno).Tracked := by
  obtain ⟨howner, hphase⟩ := h.active r c hc hres
  have hready : (s.netFd c.netFd).place.ready = true := by
    rw [hplace]
    rfl
  -- the call has been served or has expired
  have hended : (s.pc c.home).serving ≠ some r ∧ (s.netFd c.netFd).mapped = none ∧
      (c.timer ≠ .armed ∧ c.timer ≠ .ran ∧ (s.netFd c.netFd).timer = none ∨
        c.timeout > 0 ∧ c.timer = .ran ∧ (s.netFd c.netFd).timer = some r) := by
    cases hphase with
    | served hpc _ hm htimer => exact ⟨hpc, hm, .inl htimer⟩
    | expired hpc _ hm htimed htimer => exact ⟨hpc, hm, .inr ⟨htimed, htimer⟩⟩
    | pushed hpc => exact absurd hpc hpushed
    | erased hpc => exact absurd hpc herased
    | waiting _ hp | found _ hp | firing _ hp =>
        rw [hp] at hready
        cases hready
  obtain ⟨hpc, hmapped, htimer⟩ := hended
  have hget : ∀ (q : Nat) (d : Registration), (s.resume r c errno).calls[q]? = some d ↔
      q = r ∧ d = { c with result := some (pollResult c (s.netFd c.netFd) errno) } ∨
        q ≠ r ∧ s.calls[q]? = some d := fun q d => getElem?_set_iff hc
  have hself : (s.resume r c errno).netFd c.netFd =
      { s.netFd c.netFd with
        owner := none
        timer := if c.timeout > 0 then none else (s.netFd c.netFd).timer
        place := .running } := Function.update_self _ _ _
  have hother : ∀ n ≠ c.netFd, (s.resume r c errno).netFd n = s.netFd n :=
    fun n hn => Function.update_of_ne hn _ _
  constructor
  case active =>
    intro q d hq hd
    rcases (hget q d).mp hq with ⟨-, rfl⟩ | ⟨hne, hq⟩
    · cases hd
    · obtain ⟨hqowner, hqphase⟩ := h.active q d hq hd
      have hn : d.netFd ≠ c.netFd := by
        intro heq
        rw [heq, howner] at hqowner
        exact hne (Option.some.inj hqowner).symm
      rw [hother _ hn]
      exact ⟨hqowner, hqphase⟩
  case owned =>
    intro n q hq
    by_cases hn : n = c.netFd
    · rw [hn, hself] at hq
      cases hq
    · rw [hother n hn] at hq
      obtain ⟨d, hd, hdn, hdres⟩ := h.owned n q hq
      refine ⟨d, (hget q d).mpr (.inr ⟨?_, hd⟩), hdn, hdres⟩
      rintro rfl
      rw [hc] at hd
      cases hd
      exact hn hdn.symm
  case free =>
    intro n hn
    by_cases hnc : n = c.netFd
    · rw [hnc, hself]
      refine ⟨rfl, hmapped, ?_⟩
      rcases htimer with ⟨-, -, hnone⟩ | ⟨htimed, -⟩
      · simp [hnone]
      · simp [htimed]
    · rw [hother n hnc] at hn ⊢
      exact h.free n hn
  case serving =>
    intro p' q hq
    obtain ⟨d, hd, hdp, hdres⟩ := h.serving p' q hq
    refine ⟨d, (hget q d).mpr (.inr ⟨?_, hd⟩), hdp, hdres⟩
    rintro rfl
    rw [hc] at hd
    cases hd
    rw [← hdp] at hq
    exact hpc hq
  case done =>
    intro q d res hq hd
    rcases (hget q d).mp hq with ⟨-, rfl⟩ | ⟨-, hq⟩
    · cases hd
      rcases htimer with ⟨hunarmed, hnotran, hnone⟩ | ⟨htimed, hran, hset⟩
      · exact ⟨hunarmed, iff_of_false (pollResult_served hnone herrno) hnotran⟩
      · rw [pollResult_expired htimed hset]
        refine ⟨?_, iff_of_true ⟨rfl, rfl⟩ hran⟩
        show c.timer ≠ .armed
        rw [hran]
        nofun
    · exact h.done q d res hq hd
  case punctual => exact h.punctual

theorem step {a : PollStep} (h : s.Tracked) (hcond : s.undisturbed a = true)
    (hs : s.step a = some s') : s'.Tracked := by
  unfold PollSystem.step at hs
  cases a with
  | poll p n timeout =>
      simp only [Option.ite_none_right_eq_some, Option.some.injEq] at hs
      obtain ⟨⟨-, howner⟩, rfl⟩ := hs
      exact h.poll howner
  | setRevents p n revents =>
      simp only [Option.ite_none_right_eq_some] at hs
      obtain ⟨⟨hidle, hmapped⟩, hs⟩ := hs
      split at hs
      · cases hs
      · rename_i r howner
        cases hs
        exact h.setRevents hidle hmapped howner
  | push p =>
      simp only at hs
      split at hs
      · rename_i r hpc
        obtain ⟨c, hc, rfl⟩ := Option.map_eq_some_iff.mp hs
        exact h.push hpc hc
      · cases hs
  | erase p =>
      simp only at hs
      split at hs
      · rename_i r hpc
        obtain ⟨c, hc, rfl⟩ := Option.map_eq_some_iff.mp hs
        exact h.erase hpc hc
      · cases hs
  | stopTimer p =>
      simp only at hs
      split at hs
      · rename_i r hpc
        obtain ⟨c, hc, rfl⟩ := Option.map_eq_some_iff.mp hs
        exact h.stopTimer hpc hc
      · cases hs
  | fire p r =>
      simp only at hs
      split at hs
      · cases hs
      · rename_i c hc
        simp only [Option.ite_none_right_eq_some, Option.some.injEq] at hs
        obtain ⟨⟨hidle, rfl, harmed⟩, rfl⟩ := hs
        exact h.fire hc hidle harmed
  | firePush p =>
      simp only at hs
      split at hs
      · rename_i r hpc
        obtain ⟨c, hc, rfl⟩ := Option.map_eq_some_iff.mp hs
        exact h.firePush hpc hc
      · cases hs
  | steal n =>
      simp only at hs
      split at hs
      · rename_i p hplace
        cases hs
        exact h.move (by rw [hplace]; rfl) rfl
      · cases hs
  | addTask p n =>
      simp only [Option.ite_none_right_eq_some, Option.some.injEq] at hs
      obtain ⟨hplace, rfl⟩ := hs
      exact h.move (by rw [hplace]; rfl) rfl
  | resume p n errno =>
      simp only [Option.ite_none_right_eq_some] at hs
      obtain ⟨⟨-, hplace⟩, hs⟩ := hs
      split at hs
      · cases hs
      · rename_i r howner
        obtain ⟨c, hc, rfl⟩ := Option.map_eq_some_iff.mp hs
        obtain ⟨d, hd, rfl, hres⟩ := h.owned n r howner
        rw [hc] at hd
        cases hd
        simp only [undisturbed, howner, hc, Bool.and_eq_true, bne_iff_ne, ne_eq,
          Bool.not_eq_true'] at hcond
        exact h.resume hc hres hplace hcond.1.1 hcond.1.2 hcond.2

end Tracked

/-- `Poll` returns -1 with `ETIME` if and only if its own timer has run, and a Processer
does not use a `NetFD` for a call that has been resumed. -/
structure PollContract (s : PollSystem) : Prop where
  timeout : ∀ (r : Nat) (c : Registration) (res : PollResult), s.calls[r]? = some c →
    c.result = some res → (res.ret = -1 ∧ res.errno = ETIME ↔ c.timer = .ran)
  punctual : s.late = false

theorem pollContract_of_undisturbed (s : PollSystem)
    (h : Reach step (fun s a => s.undisturbed a = true) make s) : s.PollContract := by
  have htracked : s.Tracked :=
    h.invariant tracked_make fun _ _ _ ht hc hs => ht.step hc hs
  exact ⟨fun r c res hc hres => (htracked.done r c res hc hres).2, htracked.punctual⟩

/-- One call is served by Processer 0, stolen, and resumed by Processer 1; the next one
times out there. -/
theorem pollContract_stolen :
    ∃ s, run step (fun s a => s.undisturbed a = true) make
      [.poll 0 5 10, .setRevents 0 5 1, .push 0, .steal 5, .addTask 1 5, .erase 0, .stopTimer 0,
        .resume 1 5 0, .poll 1 5 10, .fire 1 1, .firePush 1, .resume 1 5 0] = some s ∧
      s.PollContract :=
  ⟨_, rfl, pollContract_of_undisturbed _ (reach_of_run
    [.poll 0 5 10, .setRevents 0 5 1, .push 0, .steal 5, .addTask 1 5, .erase 0, .stopTimer 0,
      .resume 1 5 0, .poll 1 5 10, .fire 1 1, .firePush 1, .resume 1 5 0] rfl)⟩

/-- The task is stolen and resumed before Processer 0 has stopped the timer: `Poll`
reports a timeout, and then Processer 0 uses the `NetFD`. -/
theorem not_pollContract_resumed_early :
    ¬ ∀ s : PollSystem, Reach step Free make s → s.PollContract := by
  intro hall
  obtain ⟨s, hrun, hcall⟩ : ∃ s, run step Free make
      [.poll 0 5 10, .setRevents 0 5 1, .push 0, .steal 5, .addTask 1 5, .resume 1 5 0] = some s ∧
        s.calls[0]? = some
          { netFd := 5, home := 0, timeout := 10, timer := .armed
            result := some { ret := -1, errno := ETIME } } :=
    ⟨_, rfl, rfl⟩
  have hran := ((hall s (reach_of_run _ hrun)).timeout 0 _ _ hcall rfl).mp ⟨rfl, rfl⟩
  cases hran

end PollSystem

end CppGo.Netio
