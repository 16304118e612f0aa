import CppGo.Sync.MonitorSections
import Mathlib.Data.List.Nodup

/-!
# Ownership of the mutex

`Owned` ties `owner_task_`, `waite_queue_` and the run queues to the program
counters.  Every section keeps it, and so does a wake-up of a task that is
suspended inside `Wait` and in no run queue.
-/

namespace CppGo.Sync

open CppGo.Lib.Machine

namespace Pc

def inside : Pc → Bool
  | .hold | .notifying | .waitSuspend | .waitUnlock | .waitCheck | .waitStop => true
  | _ => false

def isQueued : Pc → Bool
  | .queued _ => true
  | _ => false

def isHanding : Pc → Bool
  | .handing _ _ => true
  | _ => false

def inWait : Pc → Bool
  | .waitUnlock | .handing .wait _ | .waitYield => true
  | _ => false

def Fits (p : Pc) (runq : Nat) : Prop :=
  match p with
  | .recheck _ => runq = 0
  | .queued _ | .waitUnlock | .handing .wait _ | .waitYield => runq ≤ 1
  | _ => runq = 1

theorem Fits.le {p : Pc} {runq : Nat} (h : p.Fits runq) : runq ≤ 1 := by
  unfold Fits at h
  split at h <;> omega

theorem fits_one {p : Pc} (h : ∀ k, p ≠ .recheck k) : p.Fits 1 := by
  unfold Fits
  split
  · exact absurd rfl (h _)
  all_goals simp

theorem not_queued_of_inside {p : Pc} (h : p.inside = true) : p.isQueued = false := by
  cases p <;> simp_all [inside, isQueued]

theorem not_handing_of_inside {p : Pc} (h : p.inside = true) : p.isHanding = false := by
  cases p <;> simp_all [inside, isHanding]

end Pc

namespace Monitor

variable {s s' : Monitor}

structure Owned (s : Monitor) : Prop where
  inside : ∀ t, (s.pc t).inside = true → s.mutex.owner_task_ = some t
  owner : ∀ t, s.mutex.owner_task_ = some t →
    (s.pc t).inside = true ∨ (s.pc t).isQueued = true
  free : ∀ t, s.mutex.owner_task_ = some t → t ∉ s.mutex.waite_queue_
  queue : ∀ t ∈ s.mutex.waite_queue_, (s.pc t).isQueued = true
  queued : ∀ t, (s.pc t).isQueued = true →
    t ∈ s.mutex.waite_queue_ ∨ s.mutex.owner_task_ = some t
  nodup : s.mutex.waite_queue_.Nodup
  manned : s.mutex.waite_queue_ ≠ [] → s.mutex.owner_task_ ≠ none
  handing : ∀ u k t, s.pc u = .handing k t →
    s.mutex.owner_task_ = some t ∧ (s.pc t).isQueued = true
  single : ∀ u v, (s.pc u).isHanding = true → (s.pc v).isHanding = true → u = v
  asleep : ∀ t ∈ s.mutex.waite_queue_, s.runq t = 0
  granted : ∀ t, s.mutex.owner_task_ = some t → (s.pc t).isQueued = true →
    (s.runq t = 0 ↔ ∃ u, (s.pc u).isHanding = true)
  fits : ∀ t, (s.pc t).Fits (s.runq t)
  wakes : ∀ t, s.wakes t ≤ s.runq t

theorem owned_make (ndebug : Bool) : (make ndebug).Owned := by
  constructor <;> simp [make, Pc.inside, Pc.isQueued, Pc.isHanding, Pc.Fits]

structure Elsewhere (s s' : Monitor) (t : Nat) : Prop where
  pc : ∀ u ≠ t, s'.pc u = s.pc u
  runq : ∀ u ≠ t, s'.runq u = s.runq u
  wakes : ∀ u ≠ t, s'.wakes u = s.wakes u

theorem flag_congr {t : Nat} {f : Pc → Bool} (hpc : ∀ u ≠ t, s'.pc u = s.pc u)
    (ht : f (s'.pc t) = f (s.pc t)) (u : Nat) : f (s'.pc u) = f (s.pc u) := by
  by_cases hu : u = t
  · rw [hu, ht]
  · rw [hpc u hu]

namespace Owned

variable {t : Nat}

theorem fits_elsewhere (h : s.Owned) (he : Elsewhere s s' t)
    (hfits : (s'.pc t).Fits (s'.runq t)) (u : Nat) : (s'.pc u).Fits (s'.runq u) := by
  by_cases hu : u = t
  · rw [hu]
    exact hfits
  · rw [he.pc u hu, he.runq u hu]
    exact h.fits u

theorem wakes_elsewhere (h : s.Owned) (he : Elsewhere s s' t)
    (hwakes : s'.wakes t ≤ s'.runq t) (u : Nat) : s'.wakes u ≤ s'.runq u := by
  by_cases hu : u = t
  · rw [hu]
    exact hwakes
  · rw [he.wakes u hu, he.runq u hu]
    exact h.wakes u

theorem move (h : s.Owned) (he : Elsewhere s s' t) (hm : s'.mutex = s.mutex)
    (hin : (s'.pc t).inside = (s.pc t).inside) (hq : (s.pc t).isQueued = false)
    (hq' : (s'.pc t).isQueued = false) (hh : (s.pc t).isHanding = false)
    (hh' : (s'.pc t).isHanding = false) (hfits : (s'.pc t).Fits (s'.runq t))
    (hwakes : s'.wakes t ≤ s'.runq t) : s'.Owned := by
  have hinside : ∀ u, (s'.pc u).inside = (s.pc u).inside := flag_congr he.pc hin
  have hqueued : ∀ u, (s'.pc u).isQueued = (s.pc u).isQueued :=
    flag_congr he.pc (hq'.trans hq.symm)
  have hhanding : ∀ u, (s'.pc u).isHanding = (s.pc u).isHanding :=
    flag_congr he.pc (hh'.trans hh.symm)
  have hne : ∀ u, (s.pc u).isQueued = true → u ≠ t := by
    rintro u hu rfl
    rw [hq] at hu
    cases hu
  constructor
  case inside => simpa only [hinside, hm] using h.inside
  case owner => simpa only [hinside, hqueued, hm] using h.owner
  case free => simpa only [hm] using h.free
  case queue => simpa only [hqueued, hm] using h.queue
  case queued => simpa only [hqueued, hm] using h.queued
  case nodup => simpa only [hm] using h.nodup
  case manned => simpa only [hm] using h.manned
  case handing =>
    intro u k w hu
    have hut : u ≠ t := by
      rintro rfl
      rw [hu] at hh'
      cases hh'
    rw [he.pc u hut] at hu
    rw [hm, hqueued]
    exact h.handing u k w hu
  case single => simpa only [hhanding] using h.single
  case asleep =>
    intro u hu
    rw [hm] at hu
    rw [he.runq u (hne u (h.queue u hu))]
    exact h.asleep u hu
  case granted =>
    intro u hu hqu
    rw [hm] at hu
    rw [hqueued] at hqu
    simp only [he.runq u (hne u hqu), hhanding]
    exact h.granted u hu hqu
  case fits => exact h.fits_elsewhere he hfits
  case wakes => exact h.wakes_elsewhere he hwakes

theorem idle (h : s.Owned) (hfree : s.mutex.owner_task_ = none) :
    s.mutex.waite_queue_ = [] ∧ ∀ u, (s.pc u).inside = false ∧ (s.pc u).isQueued = false ∧
      (s.pc u).isHanding = false := by
  have hempty : s.mutex.waite_queue_ = [] := by
    by_contra hne
    exact h.manned hne hfree
  refine ⟨hempty, fun u => ⟨?_, ?_, ?_⟩⟩
  · rw [← Bool.not_eq_true]
    intro hin
    rw [h.inside u hin] at hfree
    cases hfree
  · rw [← Bool.not_eq_true]
    intro hq
    rcases h.queued u hq with hmem | hown
    · rw [hempty] at hmem
      cases hmem
    · rw [hown] at hfree
      cases hfree
  · cases hp : s.pc u with
    | handing k w =>
        rw [(h.handing u k w hp).1] at hfree
        cases hfree
    | _ => rfl

/-- The four places where a coroutine takes a free mutex. -/
theorem acquire (h : s.Owned) (he : Elsewhere s s' t) (hfree : s.mutex.owner_task_ = none)
    (hm : s'.mutex = s.mutex.setOwner t) (hin : (s'.pc t).inside = true)
    (hfits : (s'.pc t).Fits (s'.runq t)) (hwakes : s'.wakes t ≤ s'.runq t) : s'.Owned := by
  obtain ⟨hempty, hidle⟩ := h.idle hfree
  have hown : s'.mutex.owner_task_ = some t := by rw [hm]; rfl
  have hqueue : s'.mutex.waite_queue_ = [] := by rw [hm]; exact hempty
  have honly : ∀ u, (s'.pc u).inside = true ↔ u = t := by
    intro u
    constructor
    · intro hu
      by_contra hne
      rw [he.pc u hne, (hidle u).1] at hu
      cases hu
    · rintro rfl
      exact hin
  have hnone : ∀ u, (s'.pc u).isQueued = false ∧ (s'.pc u).isHanding = false := by
    intro u
    by_cases hu : u = t
    · rw [hu]
      exact ⟨Pc.not_queued_of_inside hin, Pc.not_handing_of_inside hin⟩
    · rw [he.pc u hu]
      exact (hidle u).2
  constructor
  case inside =>
    intro u hu
    rw [(honly u).mp hu]
    exact hown
  case owner =>
    intro u hu
    rw [hown] at hu
    cases hu
    exact .inl hin
  case free => simp [hqueue]
  case queue => simp [hqueue]
  case queued =>
    intro u hu
    rw [(hnone u).1] at hu
    cases hu
  case nodup => simp [hqueue]
  case manned => simp [hqueue]
  case handing =>
    intro u k w hu
    have := (hnone u).2
    rw [hu] at this
    cases this
  case single =>
    intro u v hu
    rw [(hnone u).2] at hu
    cases hu
  case asleep => simp [hqueue]
  case granted =>
    intro u _ hu
    rw [(hnone u).1] at hu
    cases hu
  case fits => exact h.fits_elsewhere he hfits
  case wakes => exact h.wakes_elsewhere he hwakes

theorem alone (h : s.Owned) (hin : (s.pc t).inside = true) (u : Nat) :
    ((s.pc u).inside = true ↔ u = t) ∧ (s.pc u).isHanding = false := by
  have hown := h.inside t hin
  constructor
  · constructor
    · intro hu
      have := h.inside u hu
      rw [hown] at this
      simpa using this.symm
    · rintro rfl
      exact hin
  · cases hp : s.pc u with
    | handing k w =>
        obtain ⟨how, hq⟩ := h.handing u k w hp
        rw [hown] at how
        cases how
        rw [Pc.not_queued_of_inside hin] at hq
        cases hq
    | _ => rfl

theorem enqueue {k k' : Caller} (h : s.Owned) (he : Elsewhere s s' t)
    (hm : s'.mutex = s.mutex.emplace t) (hbusy : s.mutex.owner_task_ ≠ none)
    (hpc : s.pc t = .recheck k) (hpc' : s'.pc t = .queued k') (hrunq : s'.runq t = s.runq t)
    (hwakes : s'.wakes t = s.wakes t) : s'.Owned := by
  have hout : t ∉ s.mutex.waite_queue_ := by
    intro hmem
    have := h.queue t hmem
    rw [hpc] at this
    cases this
  have hnot : ∀ {u}, s.mutex.owner_task_ = some u → u ≠ t := by
    rintro u hown rfl
    have := h.owner u hown
    simp [hpc, Pc.inside, Pc.isQueued] at this
  have hzero : s.runq t = 0 := by simpa [Pc.Fits, hpc] using h.fits t
  have howner : s'.mutex.owner_task_ = s.mutex.owner_task_ := by rw [hm]; rfl
  have hqueue : s'.mutex.waite_queue_ = s.mutex.waite_queue_ ++ [t] := by rw [hm]; rfl
  have hinside : ∀ u, (s'.pc u).inside = (s.pc u).inside :=
    flag_congr he.pc (by rw [hpc, hpc']; rfl)
  have hhanding : ∀ u, (s'.pc u).isHanding = (s.pc u).isHanding :=
    flag_congr he.pc (by rw [hpc, hpc']; rfl)
  constructor
  case inside => simpa only [hinside, howner] using h.inside
  case owner =>
    intro u hu
    rw [howner] at hu
    rw [he.pc u (hnot hu)]
    exact h.owner u hu
  case free =>
    intro u hu hmem
    rw [howner] at hu
    rw [hqueue] at hmem
    exact h.free u hu (by simpa [hnot hu] using hmem)
  case queue =>
    intro u hmem
    rw [hqueue] at hmem
    by_cases hu : u = t
    · rw [hu, hpc']
      rfl
    · rw [he.pc u hu]
      exact h.queue u (by simpa [hu] using hmem)
  case queued =>
    intro u hq
    rw [hqueue, howner]
    by_cases hu : u = t
    · simp [hu]
    · rw [he.pc u hu] at hq
      exact (h.queued u hq).imp_left fun hmem => List.mem_append_left _ hmem
  case nodup =>
    rw [hqueue, List.nodup_append]
    refine ⟨h.nodup, List.nodup_singleton t, ?_⟩
    rintro u hu v hv rfl
    rw [List.mem_singleton.mp hv] at hu
    exact hout hu
  case manned =>
    rw [howner]
    exact fun _ => hbusy
  case handing =>
    intro u j w hu
    have hut : u ≠ t := by
      rintro rfl
      rw [hpc'] at hu
      cases hu
    rw [he.pc u hut] at hu
    obtain ⟨hown, hq⟩ := h.handing u j w hu
    rw [howner, he.pc w (hnot hown)]
    exact ⟨hown, hq⟩
  case single => simpa only [hhanding] using h.single
  case asleep =>
    intro u hmem
    rw [hqueue] at hmem
    by_cases hu : u = t
    · rw [hu, hrunq, hzero]
    · rw [he.runq u hu]
      exact h.asleep u (by simpa [hu] using hmem)
  case granted =>
    intro u hu hq
    rw [howner] at hu
    rw [he.pc u (hnot hu)] at hq
    simp only [he.runq u (hnot hu), hhanding]
    exact h.granted u hu hq
  case fits => exact h.fits_elsewhere he (by rw [hpc', hrunq, hzero]; exact Nat.zero_le 1)
  case wakes => exact h.wakes_elsewhere he (by rw [hrunq, hwakes]; exact h.wakes t)

theorem release (h : s.Owned) (he : Elsewhere s s' t) (hin : (s.pc t).inside = true)
    (hempty : s.mutex.waite_queue_ = []) (howner : s'.mutex.owner_task_ = none)
    (hqueue : s'.mutex.waite_queue_ = []) (hin' : (s'.pc t).inside = false)
    (hq' : (s'.pc t).isQueued = false) (hh' : (s'.pc t).isHanding = false)
    (hfits : (s'.pc t).Fits (s'.runq t)) (hwakes : s'.wakes t ≤ s'.runq t) : s'.Owned := by
  have hown := h.inside t hin
  have hnone : ∀ u, (s'.pc u).inside = false ∧ (s'.pc u).isQueued = false ∧
      (s'.pc u).isHanding = false := by
    intro u
    by_cases hu : u = t
    · rw [hu]
      exact ⟨hin', hq', hh'⟩
    · rw [he.pc u hu]
      refine ⟨?_, ?_, (h.alone hin u).2⟩
      · rw [← Bool.not_eq_true, (h.alone hin u).1]
        exact hu
      · rw [← Bool.not_eq_true]
        intro hq
        rcases h.queued u hq with hmem | hou
        · rw [hempty] at hmem
          cases hmem
        · rw [hown] at hou
          exact hu (by simpa using hou.symm)
  constructor
  case inside => simp [hnone]
  case owner => simp [howner]
  case free => simp [howner]
  case queue => simp [hqueue]
  case queued => simp [hnone]
  case nodup => simp [hqueue]
  case manned => simp [hqueue]
  case handing =>
    intro u k w hu
    have := (hnone u).2.2
    rw [hu] at this
    cases this
  case single => simp [hnone]
  case asleep => simp [hqueue]
  case granted => simp [howner]
  case fits => exact h.fits_elsewhere he hfits
  case wakes => exact h.wakes_elsewhere he hwakes

theorem hand {wakeup : Nat} {queue : List Nat} {k : Caller} (h : s.Owned)
    (he : Elsewhere s s' t) (hin : (s.pc t).inside = true)
    (hwait : s.mutex.waite_queue_ = wakeup :: queue)
    (howner : s'.mutex.owner_task_ = some wakeup) (hqueue : s'.mutex.waite_queue_ = queue)
    (hpc' : s'.pc t = .handing k wakeup) (hfits : (s'.pc t).Fits (s'.runq t))
    (hwakes : s'.wakes t ≤ s'.runq t) : s'.Owned := by
  have hown := h.inside t hin
  have hnodup := h.nodup
  rw [hwait, List.nodup_cons] at hnodup
  have hmem : ∀ u ∈ wakeup :: queue, u ≠ t ∧ (s.pc u).isQueued = true ∧ s.runq u = 0 := by
    intro u hu
    rw [← hwait] at hu
    refine ⟨?_, h.queue u hu, h.asleep u hu⟩
    rintro rfl
    exact h.free u hown hu
  have hwakeup := hmem wakeup List.mem_cons_self
  have hhanding : ∀ u, (s'.pc u).isHanding = true ↔ u = t := by
    intro u
    by_cases hu : u = t
    · simp [hu, hpc', Pc.isHanding]
    · simp [hu, he.pc u hu, (h.alone hin u).2]
  constructor
  case inside =>
    intro u hu
    by_cases hut : u = t
    · rw [hut, hpc'] at hu
      cases hu
    · rw [he.pc u hut, (h.alone hin u).1] at hu
      exact absurd hu hut
  case owner =>
    intro u hu
    rw [howner] at hu
    cases hu
    rw [he.pc _ hwakeup.1]
    exact .inr hwakeup.2.1
  case free =>
    intro u hu hq
    rw [howner] at hu
    cases hu
    rw [hqueue] at hq
    exact hnodup.1 hq
  case queue =>
    intro u hu
    rw [hqueue] at hu
    have hcons := hmem u (List.mem_cons_of_mem _ hu)
    rw [he.pc u hcons.1]
    exact hcons.2.1
  case queued =>
    intro u hq
    have hut : u ≠ t := by
      rintro rfl
      rw [hpc'] at hq
      cases hq
    rw [he.pc u hut] at hq
    rw [hqueue, howner]
    rcases h.queued u hq with hu | hu
    · rw [hwait] at hu
      rcases List.mem_cons.mp hu with rfl | hu
      · exact .inr rfl
      · exact .inl hu
    · rw [hown] at hu
      exact absurd (by simpa using hu.symm) hut
  case nodup =>
    rw [hqueue]
    exact hnodup.2
  case manned => simp [howner]
  case handing =>
    intro u j w hu
    have hut : u = t := (hhanding u).mp (by rw [hu]; rfl)
    rw [hut, hpc'] at hu
    cases hu
    rw [he.pc _ hwakeup.1]
    exact ⟨howner, hwakeup.2.1⟩
  case single =>
    intro u v hu hv
    rw [(hhanding u).mp hu, (hhanding v).mp hv]
  case asleep =>
    intro u hu
    rw [hqueue] at hu
    have hcons := hmem u (List.mem_cons_of_mem _ hu)
    rw [he.runq u hcons.1]
    exact hcons.2.2
  case granted =>
    intro u hu _
    rw [howner] at hu
    cases hu
    rw [he.runq _ hwakeup.1, hwakeup.2.2]
    exact iff_of_true rfl ⟨t, (hhanding t).mpr rfl⟩
  case fits => exact h.fits_elsewhere he hfits
  case wakes => exact h.wakes_elsewhere he hwakes

theorem handOff {next : Nat} {k : Caller} (h : s.Owned) (hpc : s.pc t = .handing k next) :
    ((s.wakeupBySelfIo next).goto t (afterUnlock k)).Owned := by
  obtain ⟨hown, hnext⟩ := h.handing t k next hpc
  have hne : t ≠ next := by
    rintro rfl
    rw [hpc] at hnext
    cases hnext
  have hhand : (s.pc t).isHanding = true := by rw [hpc]; rfl
  have hzero : s.runq next = 0 := (h.granted next hown hnext).mpr ⟨t, hhand⟩
  -- first the program counter, with the wake-up still to come
  have hpc' : ∀ u, ((s.wakeupBySelfIo next).goto t (afterUnlock k)).pc u =
      if u = t then afterUnlock k else s.pc u := fun u => Function.update_apply _ _ _ u
  have hrunq : ∀ u, ((s.wakeupBySelfIo next).goto t (afterUnlock k)).runq u =
      if u = next then 1 else s.runq u := by
    intro u
    by_cases hu : u = next <;> simp [goto, wakeupBySelfIo, hu, hzero]
  have hnone : ∀ u, (((s.wakeupBySelfIo next).goto t (afterUnlock k)).pc u).isHanding = false := by
    intro u
    rw [hpc']
    split
    · cases k <;> rfl
    · rename_i hu
      rw [← Bool.not_eq_true]
      exact fun hh => hu (h.single u t hh hhand)
  have hpcs : ∀ u ≠ t, ((s.wakeupBySelfIo next).goto t (afterUnlock k)).pc u = s.pc u :=
    fun u hu => by rw [hpc', if_neg hu]
  have hinside : ∀ u, (((s.wakeupBySelfIo next).goto t (afterUnlock k)).pc u).inside =
      (s.pc u).inside := by
    apply flag_congr hpcs
    rw [hpc', if_pos rfl, hpc]
    cases k <;> rfl
  have hqueued : ∀ u, (((s.wakeupBySelfIo next).goto t (afterUnlock k)).pc u).isQueued =
      (s.pc u).isQueued := by
    apply flag_congr hpcs
    rw [hpc', if_pos rfl, hpc]
    cases k <;> rfl
  constructor
  case inside => exact fun u hu => h.inside u (hinside u ▸ hu)
  case owner =>
    intro u hu
    rw [hinside, hqueued]
    exact h.owner u hu
  case free => exact h.free
  case queue =>
    intro u hu
    rw [hqueued]
    exact h.queue u hu
  case queued => exact fun u hu => h.queued u (hqueued u ▸ hu)
  case nodup => exact h.nodup
  case manned => exact h.manned
  case handing =>
    intro u j w hu
    have := hnone u
    rw [hu] at this
    cases this
  case single =>
    intro u v hu
    rw [hnone u] at hu
    cases hu
  case asleep =>
    intro u hu
    have hun : u ≠ next := by
      rintro rfl
      exact h.free u hown hu
    rw [hrunq, if_neg hun]
    exact h.asleep u hu
  case granted =>
    intro u hu _
    have hu : s.mutex.owner_task_ = some u := hu
    rw [hown] at hu
    cases hu
    rw [hrunq, if_pos rfl]
    refine iff_of_false Nat.one_ne_zero ?_
    rintro ⟨v, hv⟩
    rw [hnone v] at hv
    cases hv
  case fits =>
    intro u
    rw [hrunq, hpc']
    by_cases hu : u = next
    · rw [if_pos hu, hu, if_neg hne.symm]
      apply Pc.fits_one
      rintro j hj
      rw [hj] at hnext
      cases hnext
    · rw [if_neg hu]
      split
      · rename_i hut
        have hfits := h.fits t
        rw [hpc] at hfits
        rw [hut]
        cases k <;> exact hfits
      · exact h.fits u
  case wakes =>
    intro u
    have hw := h.wakes u
    rw [hrunq]
    by_cases hu : u = next
    · have hzero' : s.wakes next = 0 := by
        have := h.wakes next
        omega
      simp [goto, wakeupBySelfIo, hu, hzero']
    · simpa [goto, wakeupBySelfIo, hu] using hw

theorem returnGranted {k : Caller} (h : s.Owned) (hpc : s.pc t = .queued k)
    (hrunq : 1 ≤ s.runq t) : (s.goto t (afterLock k)).Owned := by
  have hq : (s.pc t).isQueued = true := by rw [hpc]; rfl
  have hout : t ∉ s.mutex.waite_queue_ := by
    intro hmem
    have := h.asleep t hmem
    omega
  have hown : s.mutex.owner_task_ = some t := (h.queued t hq).resolve_left hout
  have hnone : ∀ u, (s.pc u).isHanding = false := by
    intro u
    rw [← Bool.not_eq_true]
    intro hu
    have := (h.granted t hown hq).mpr ⟨u, hu⟩
    omega
  have hin : (afterLock k).inside = true := by cases k <;> rfl
  have hpc' : ∀ u, (s.goto t (afterLock k)).pc u = if u = t then afterLock k else s.pc u :=
    fun u => Function.update_apply _ _ _ u
  constructor
  case inside =>
    intro u hu
    rw [hpc'] at hu
    split at hu
    · rename_i hut
      rw [hut]
      exact hown
    · exact h.inside u hu
  case owner =>
    intro u hu
    have hu : s.mutex.owner_task_ = some u := hu
    rw [hown] at hu
    cases hu
    rw [hpc', if_pos rfl]
    exact .inl hin
  case free => exact h.free
  case queue =>
    intro u hu
    have hut : u ≠ t := by
      rintro rfl
      exact hout hu
    rw [hpc', if_neg hut]
    exact h.queue u hu
  case queued =>
    intro u hu
    rw [hpc'] at hu
    split at hu
    · rw [Pc.not_queued_of_inside hin] at hu
      cases hu
    · exact h.queued u hu
  case nodup => exact h.nodup
  case manned => exact h.manned
  case handing =>
    intro u j w hu
    rw [hpc'] at hu
    split at hu
    · rw [hu] at hin
      cases hin
    · have := hnone u
      rw [hu] at this
      cases this
  case single =>
    intro u v hu
    rw [hpc'] at hu
    split at hu
    · rw [Pc.not_handing_of_inside hin] at hu
      cases hu
    · rw [hnone u] at hu
      cases hu
  case asleep => exact h.asleep
  case granted =>
    intro u hu hqu
    have hu : s.mutex.owner_task_ = some u := hu
    rw [hown] at hu
    cases hu
    rw [hpc', if_pos rfl, Pc.not_queued_of_inside hin] at hqu
    cases hqu
  case fits =>
    intro u
    rw [hpc']
    split
    · rename_i hut
      have hle := (h.fits t).le
      have hone : s.runq t = 1 := by omega
      rw [hut, show (s.goto t (afterLock k)).runq t = s.runq t from rfl, hone]
      cases k <;> rfl
    · exact h.fits u
  case wakes => exact h.wakes

theorem wake (h : s.Owned) (he : Elsewhere s s' t) (hm : s'.mutex = s.mutex)
    (hpc : s'.pc t = s.pc t) (hq : (s.pc t).isQueued = false)
    (hfits : (s'.pc t).Fits (s'.runq t)) (hwakes : s'.wakes t ≤ s'.runq t) : s'.Owned := by
  have hsame : ∀ u, s'.pc u = s.pc u := by
    intro u
    by_cases hu : u = t
    · rw [hu, hpc]
    · exact he.pc u hu
  have hne : ∀ u, (s.pc u).isQueued = true → u ≠ t := by
    rintro u hu rfl
    rw [hq] at hu
    cases hu
  constructor
  case inside => simpa only [hsame, hm] using h.inside
  case owner => simpa only [hsame, hm] using h.owner
  case free => simpa only [hm] using h.free
  case queue => simpa only [hsame, hm] using h.queue
  case queued => simpa only [hsame, hm] using h.queued
  case nodup => simpa only [hm] using h.nodup
  case manned => simpa only [hm] using h.manned
  case handing => simpa only [hsame, hm] using h.handing
  case single => simpa only [hsame] using h.single
  case asleep =>
    intro u hu
    rw [hm] at hu
    rw [he.runq u (hne u (h.queue u hu))]
    exact h.asleep u hu
  case granted =>
    intro u hu hqu
    rw [hm] at hu
    rw [hsame] at hqu
    simp only [he.runq u (hne u hqu), hsame]
    exact h.granted u hu hqu
  case fits => exact h.fits_elsewhere he hfits
  case wakes => exact h.wakes_elsewhere he hwakes

end Owned

theorem elsewhere_goto {t : Nat} {p : Pc} (hpc : s'.pc = Function.update s.pc t p)
    (hrunq : s'.runq = s.runq) (hwakes : s'.wakes = s.wakes) : Elsewhere s s' t where
  pc u hu := by rw [hpc, Function.update_of_ne hu]
  runq u _ := by rw [hrunq]
  wakes u _ := by rw [hwakes]

def suspendedInWait (s : Monitor) (t : Nat) : Bool :=
  (s.pc t).inWait && s.runq t == 0

/-- The callback of a wait timer and `Notify` wake only tasks that are suspended in
`Wait`. -/
def targeted (s : Monitor) : MonitorEvent → Bool
  | .fireWake t => s.suspendedInWait t
  | .notifyOne _ => s.cond.waite_queue_.head?.all s.suspendedInWait
  | .notifyNext _ => s.cond.waite_queue_.head?.all s.suspendedInWait
  | _ => true

namespace Owned

variable {t : Nat}

/-- A step between two places outside of the mutex's code, or inside the critical
section, that leaves the run queues alone. -/
theorem step_to {p q : Pc} (h : s.Owned) (hat : s.pc t = q) (hm : s'.mutex = s.mutex)
    (hpc : s'.pc = Function.update s.pc t p) (hrunq : s'.runq = s.runq)
    (hwakes : s'.wakes = s.wakes) (hin : p.inside = q.inside) (hq : q.isQueued = false)
    (hq' : p.isQueued = false) (hh : q.isHanding = false) (hh' : p.isHanding = false)
    (hfits : q.Fits (s.runq t) → p.Fits (s.runq t)) : s'.Owned := by
  subst hat
  have hp : s'.pc t = p := by rw [hpc, Function.update_self]
  refine h.move (t := t) (elsewhere_goto hpc hrunq hwakes) hm ?_ hq ?_ hh ?_ ?_ ?_
  · rw [hp, hin]
  · rw [hp, hq']
  · rw [hp, hh']
  · rw [hp, hrunq]
    exact hfits (h.fits t)
  · rw [hrunq, hwakes]
    exact h.wakes t

theorem acquire_to {p : Pc} (h : s.Owned) (hfree : s.mutex.owner_task_ = none)
    (hm : s'.mutex = s.mutex.setOwner t) (hpc : s'.pc = Function.update s.pc t p)
    (hrunq : s'.runq = s.runq) (hwakes : s'.wakes = s.wakes) (hin : p.inside = true)
    (hfits : (s.pc t).Fits (s.runq t) → p.Fits (s.runq t)) : s'.Owned := by
  have hp : s'.pc t = p := by rw [hpc, Function.update_self]
  refine h.acquire (t := t) (elsewhere_goto hpc hrunq hwakes) hfree hm ?_ ?_ ?_
  · rw [hp, hin]
  · rw [hp, hrunq]
    exact hfits (h.fits t)
  · rw [hrunq, hwakes]
    exact h.wakes t

theorem wake_suspended (h : s.Owned) (hm : s'.mutex = s.mutex) (hpc : s'.pc = s.pc)
    (hrunq : s'.runq = Function.update s.runq t (s.runq t + 1))
    (hwakes : s'.wakes = Function.update s.wakes t (s.wakes t + 1))
    (hsusp : s.suspendedInWait t = true) : s'.Owned := by
  simp only [suspendedInWait, Bool.and_eq_true, beq_iff_eq] at hsusp
  obtain ⟨hwait, hzero⟩ := hsusp
  have hw := h.wakes t
  refine h.wake (t := t) ⟨fun u _ => by rw [hpc], fun u hu => by rw [hrunq, Function.update_of_ne hu],
    fun u hu => by rw [hwakes, Function.update_of_ne hu]⟩ hm (by rw [hpc]) ?_ ?_ ?_
  · cases hp : s.pc t <;> simp_all [Pc.inWait, Pc.isQueued]
  · rw [hpc, hrunq, Function.update_self, hzero]
    apply Pc.fits_one
    intro k hk
    rw [hk] at hwait
    cases hwait
  · rw [hrunq, hwakes, Function.update_self, Function.update_self]
    omega

theorem outcome {a : MonitorEvent} (h : s.Owned) (hc : s.targeted a = true)
    (ho : Outcome s a s') : s'.Owned := by
  cases ho with
  | @lockFree t k hpc hfree =>
      refine h.acquire_to (t := t) hfree rfl rfl rfl rfl (by cases k <;> rfl) ?_
      rw [hpc]
      cases k <;> exact id
  | @lockBusy t k hpc hbusy =>
      cases k <;> exact h.step_to hpc rfl rfl rfl rfl rfl rfl rfl rfl rfl id
  | @spinFree t k hpc hfree =>
      refine h.acquire_to (t := t) hfree rfl rfl rfl rfl (by cases k <;> rfl) ?_
      rw [hpc]
      cases k <;> exact id
  | @spinBusy t k got hpc =>
      exact h.step_to hpc rfl rfl rfl rfl rfl rfl rfl rfl rfl id
  | @suspend t k hpc =>
      have hone : s.runq t = 1 := by simpa [Pc.Fits, hpc] using h.fits t
      refine h.move (t := t) ⟨fun u hu => ?_, fun u hu => ?_, fun u hu => ?_⟩ rfl ?_ ?_ ?_ ?_ ?_
        ?_ ?_
      all_goals simp_all [Pc.inside, Pc.isQueued, Pc.isHanding, Pc.Fits]
  | @recheckFree t k hpc hfree =>
      have hzero : s.runq t = 0 := by simpa [Pc.Fits, hpc] using h.fits t
      have hw := h.wakes t
      refine h.acquire (t := t) ⟨fun u hu => ?_, fun u hu => ?_, fun u hu => ?_⟩ hfree rfl ?_ ?_ ?_
      · simp [hu]
      · simp [hu]
      · simp [hu]
      · cases k <;> simp [afterLock, Pc.inside]
      · cases k <;> simp [afterLock, Pc.Fits, hzero]
      · simp only [goto_wakes, goto_runq, wakeupBySelfIo_wakes, wakeupBySelfIo_runq,
          Function.update_self]
        omega
  | @recheckBusy t k hpc hbusy =>
      exact h.enqueue (t := t) (elsewhere_goto rfl rfl rfl) rfl hbusy hpc (by simp; rfl) rfl rfl
  | granted hpc hrunq => exact h.returnGranted hpc hrunq
  | @tryLockFree t hpc hfree =>
      refine h.acquire_to (t := t) hfree rfl rfl rfl rfl rfl ?_
      rw [hpc]
      exact id
  | tryLockBusy => exact h
  | @unlockFree t k hpc hfree =>
      have := (h.idle hfree).2 t
      rw [hpc] at this
      cases k <;> cases this.1
  | @unlockEmpty t k hpc hbusy hqueue =>
      refine h.release (t := t) (elsewhere_goto rfl rfl rfl) ?_ hqueue rfl rfl ?_ ?_ ?_ ?_
        (h.wakes t)
      · rw [hpc]
        cases k <;> rfl
      · cases k <;> simp [afterUnlock, Pc.inside]
      · cases k <;> simp [afterUnlock, Pc.isQueued]
      · cases k <;> simp [afterUnlock, Pc.isHanding]
      · have hfits := h.fits t
        rw [hpc] at hfits
        cases k <;> simpa [afterUnlock, beforeUnlock, Pc.Fits] using hfits
  | @unlockHand t wakeup queue k hpc hbusy hqueue =>
      refine h.hand (t := t) (k := k) (elsewhere_goto rfl rfl rfl) ?_ hqueue rfl rfl (by simp) ?_
        (h.wakes t)
      · rw [hpc]
        cases k <;> rfl
      · have hfits := h.fits t
        rw [hpc] at hfits
        cases k <;> simpa [beforeUnlock, Pc.Fits] using hfits
  | handOff hpc => exact h.handOff hpc
  | @wait t timeout hown =>
      exact h.step_to hown.1 rfl rfl rfl rfl rfl rfl rfl rfl rfl id
  | @waitSuspend t hpc =>
      have hone : s.runq t = 1 := by simpa [Pc.Fits, hpc] using h.fits t
      refine h.move (t := t) ⟨fun u hu => ?_, fun u hu => ?_, fun u hu => ?_⟩ rfl ?_ ?_ ?_ ?_ ?_
        ?_ ?_
      all_goals simp_all [waitEnqueue, suspendBySelfIo, goto, Pc.inside, Pc.isQueued,
        Pc.isHanding, Pc.Fits]
  | @waitResume t hpc hrunq =>
      exact h.step_to hpc rfl rfl rfl rfl rfl rfl rfl rfl rfl fun hfits =>
        Nat.le_antisymm hfits hrunq
  | @waitDone t ret hpc =>
      exact h.step_to hpc rfl rfl rfl rfl rfl rfl rfl rfl rfl id
  | @waitTimer t hpc =>
      exact h.step_to hpc rfl rfl rfl rfl rfl rfl rfl rfl rfl id
  | @waitStop t hpc =>
      exact h.step_to hpc rfl rfl rfl rfl rfl rfl rfl rfl rfl id
  | notifyAbort => exact { h with }
  | notifyNobody => exact h
  | @notifyOne t wakeup queue hown hqueue =>
      have hsusp : s.suspendedInWait wakeup = true := by simpa [targeted, hqueue] using hc
      exact h.wake_suspended (t := wakeup) rfl rfl rfl rfl hsusp
  | @notifyAll t hown =>
      exact h.step_to hown.1 rfl rfl rfl rfl rfl rfl rfl rfl rfl id
  | @notifyDone t hpc hqueue =>
      exact h.step_to hpc rfl rfl rfl rfl rfl rfl rfl rfl rfl id
  | @notifyNext t wakeup queue hpc hqueue =>
      have hsusp : s.suspendedInWait wakeup = true := by simpa [targeted, hqueue] using hc
      exact h.wake_suspended (t := wakeup) rfl rfl rfl rfl hsusp
  | fire => exact { h with }
  | @fireWake t hfiring => exact h.wake_suspended (t := t) rfl rfl rfl rfl hc

end Owned

end Monitor

end CppGo.Sync
