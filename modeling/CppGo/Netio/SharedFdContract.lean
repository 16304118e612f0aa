import CppGo.Netio.SharedFdOwnership

/-!
# A shared socket is closed once

The last `NetFD` of a shared socket closes it, as long as a `NetFD` that is not shared is
not assigned to a shared one and does not close the descriptor of a shared socket.
-/

namespace CppGo.Netio.SharedFd

open CppGo.Lib CppGo.Lib.Machine

namespace NetFds

variable {s t : NetFds} {f rfd : NetFD} {n b : Nat}

/-- A `NetFD` refers to a cell: it has been constructed with it, or last been assigned or
copied from a `NetFD` that refers to it. -/
def refers (s : NetFds) (b : Nat) : Prop := ∃ f, some f ∈ s.netFd ∧ f.origin = some b

/-- A `NetFD` is shared exactly if what it comes from was; then it has the descriptor of its
cell.  The deleter of a cell has run and its socket has been closed once if no `NetFD` refers
to the cell any more, and not at all before. -/
structure ClosesOnce (s : NetFds) : Prop where
  shared : ∀ f, some f ∈ s.netFd → (f.share_fd.isSome ↔ f.origin.isSome)
  stored : ∀ f, some f ∈ s.netFd → ∀ b, f.share_fd = some b → 0 ≤ f.osfd.fd →
    s.share_fd.value b = some f.osfd.fd
  held : ∀ b, s.refers b → b ∉ s.share_fd.deleted ∧ b ∉ s.closed
  deleted : ∀ b < s.share_fd.cells.length, ¬ s.refers b → s.share_fd.deleted.count b = 1
  closed : ∀ b fd, s.share_fd.value b = some fd → 0 ≤ fd → ¬ s.refers b → s.closed.count b = 1

theorem Owned.refers_iff (h : s.Owned none) : s.refers b ↔ 0 < s.share_fd.use_count b := by
  rw [(SharedPtrs.held_none_cons.mp h.held).pos]
  constructor
  · rintro ⟨f, hf, horigin⟩
    apply List.mem_map.mpr
    exact ⟨some f, hf, (h.origin f hf).symm.trans horigin⟩
  · intro hb
    obtain ⟨o, ho, hshare⟩ := List.mem_map.mp hb
    cases o with
    | none => cases hshare
    | some f => exact ⟨f, ho, (h.origin f ho).trans hshare⟩

theorem Owned.closesOnce (h : s.Owned none) : s.ClosesOnce := by
  constructor
  case shared =>
    intro f hf
    rw [h.origin f hf]
  case stored => exact h.fd
  case held =>
    intro b hb
    have hpos := h.refers_iff.mp hb
    have hdeleted := h.held.deleted b (SharedPtrs.lt_of_use_count hpos)
    rw [if_neg (by omega), List.count_eq_zero] at hdeleted
    refine ⟨hdeleted, fun hin => ?_⟩
    obtain ⟨fd, hvalue, hfd⟩ := h.tracked.logged b hin
    have honce := h.tracked.once b fd hvalue hfd
    rw [if_neg (by omega), List.count_eq_zero] at honce
    exact honce hin
  case deleted =>
    intro b hb hnone
    rw [h.refers_iff] at hnone
    rw [h.held.deleted b hb, if_pos (by omega)]
  case closed =>
    intro b fd hvalue hfd hnone
    rw [h.refers_iff] at hnone
    rw [h.tracked.once b fd hvalue hfd, if_pos (by omega)]

/-! ## The operations -/

theorem Owned.fail (h : s.Owned none) : s.fail.Owned none :=
  ⟨h.held, h.origin, h.fd, h.tracked⟩

theorem Owned.fresh (h : s.Owned none) :
    { s with share_fd := s.share_fd.make (-1) }.Owned (some s.share_fd.cells.length) where
  held := (SharedPtrs.held_none_cons.mp h.held).make (-1)
  origin := h.origin
  fd f hf b hb hfd := by
    have hvalue := h.fd f hf b hb hfd
    show (s.share_fd.make (-1)).value b = _
    rw [SharedPtrs.value_make, if_neg (Nat.ne_of_lt (SharedPtrs.lt_of_value hvalue)), hvalue]
  tracked := h.tracked.make (by decide)

theorem Owned.construct (h : s.Owned none) (share : Bool) : (s.construct share).Owned none := by
  unfold NetFds.construct
  cases share with
  | false => exact h.push ⟨rfl, fun b hb => by cases hb⟩
  | true => exact h.fresh.push ⟨rfl, fun b _ hfd => absurd hfd (show ¬ (0 : Int) ≤ -1 by decide)⟩

theorem Owned.copy (h : s.Owned none) (hr : s.object n = some rfd) (task : Nat) :
    (s.copy task rfd).Owned none := by
  have hfits := h.fits hr
  unfold NetFds.copy
  cases hshare : rfd.share_fd with
  | none =>
      have hfail : (if foreignTask task rfd then s.fail else s).Owned none := by
        split
        · exact h.fail
        · exact h
      exact hfail.push ⟨rfl, fun b hb => by cases hb⟩
  | some b =>
      have hmem : some b ∈ s.refs := hshare ▸ mem_refs_of_object hr
      apply (h.retain hmem).push
      constructor
      · exact hfits.1.trans hshare
      · intro c hc hfd
        show (s.share_fd.retain b).value c = _
        rw [SharedPtrs.value_retain]
        exact hfits.2 c (hshare.trans hc) hfd

theorem Owned.assign {m : Nat} (h : s.Owned none) (hf : s.object n = some f)
    (hr : s.object m = some rfd) (hcareful : f.share_fd.isSome → rfd.share_fd.isSome)
    (task : Nat) : (s.assign task n f rfd).Owned none := by
  have hfits := h.fits hr
  unfold NetFds.assign
  cases hshare : rfd.share_fd with
  | none =>
      have hnone : f.share_fd = none := by
        rw [hshare] at hcareful
        cases hf' : f.share_fd with
        | none => rfl
        | some b =>
            rw [hf'] at hcareful
            cases hcareful rfl
      have hvoid : ∀ {fd : Int} (b : Nat), f.share_fd = some b → 0 ≤ fd →
          s.share_fd.value b = some fd := by
        intro fd b hb
        rw [hnone] at hb
        cases hb
      dsimp only
      split
      · apply Owned.fail
        apply h.modify hf
        · rfl
        · exact ⟨hnone.symm, hvoid⟩
      · apply h.modify hf
        · rfl
        · exact ⟨hnone.symm, hvoid⟩
  | some b =>
      have hmem : some b ∈ s.refs := hshare ▸ mem_refs_of_object hr
      apply Owned.drop
      refine Owned.exchange (o := some _) (h.retain hmem) hf ?_
      intro g hg
      cases hg
      constructor
      · exact hfits.1.trans hshare
      · intro c hc hfd
        show (s.share_fd.retain b).value c = _
        rw [SharedPtrs.value_retain]
        exact hfits.2 c (hshare.trans hc) hfd

theorem Owned.innerClose (h : s.Owned none) (hf : s.object n = some f)
    (hcareful : f.share_fd = none → ∀ b, s.kernel f.osfd.fd ≠ some (.shared b)) :
    (s.innerClose n f).Owned none := by
  unfold NetFds.innerClose
  cases hshare : f.share_fd with
  | none =>
      have hclosed := h.closeSocket (hcareful hshare)
      have hobject : (s.closeSocket f.osfd.fd).object n = some f := by
        rw [closeSocket_of_plain (hcareful hshare)]
        exact hf
      apply hclosed.modify hobject
      · rfl
      · refine ⟨h.origin f (mem_of_object hf), fun b hb => ?_⟩
        have hb : f.share_fd = some b := hb
        rw [hshare] at hb
        cases hb
  | some b => exact h

theorem Owned.destroy (h : s.Owned none) (hf : s.object n = some f) :
    (s.destroy n f).Owned none :=
  (h.exchange (o := none) hf fun _ hg => by cases hg).drop

theorem Owned.setFd (h : s.Owned none) (hf : s.object n = some f) :
    (s.setFd n f (-1)).Owned none := by
  apply h.modify hf
  · rfl
  · exact ⟨h.origin f (mem_of_object hf),
      fun b _ hfd => absurd hfd (show ¬ (0 : Int) ≤ -1 by decide)⟩

theorem Owned.openPlain (h : s.Owned none) {fd : Int} (hfree : s.kernel fd = none) :
    { s with kernel := Function.update s.kernel fd (some .plain) }.Owned none := by
  refine ⟨h.held, h.origin, h.fd, h.tracked.update_plain ?_ ?_⟩
  · intro b hb
    rw [hfree] at hb
    cases hb
  · intro b hb
    cases hb

theorem Owned.openShared (h : s.Owned none) {fd : Int} (hfree : s.kernel fd = none)
    (hfd : 0 ≤ fd) (hvalue : s.share_fd.value b = some (-1))
    (hcount : 0 < s.share_fd.use_count b) :
    { s with
      kernel := Function.update s.kernel fd (some (.shared b))
      share_fd := s.share_fd.store b fd }.Owned none := by
  refine ⟨h.held.store fd, h.origin, fun f hf c hc hnonneg => ?_,
    h.tracked.open hfree hfd hvalue hcount⟩
  have hold := h.fd f hf c hc hnonneg
  show (s.share_fd.store b fd).value c = _
  rw [SharedPtrs.value_store (SharedPtrs.lt_of_value hvalue), if_neg]
  · exact hold
  · rintro rfl
    rw [hvalue] at hold
    have hminus := Option.some.inj hold
    omega

theorem setNetFd_object {g : NetFD} (hf : s.object n = some f) :
    (s.setNetFd n (some g)).object n = some g := by
  have hlt : n < s.netFd.length := (List.getElem?_eq_some_iff.mp (object_eq_some.mp hf)).1
  rw [object_eq_some]
  exact List.getElem?_set_self hlt

theorem construct_object (s : NetFds) (share : Bool) :
    ∃ b, (s.construct share).object s.netFd.length =
        some { osfd := ⟨-1, 0, 0⟩, owner_task := none, share_fd := b, origin := b } ∧
      (b = none ∨ b = some s.share_fd.cells.length ∧
        (s.construct share).share_fd = s.share_fd.make (-1)) := by
  cases share with
  | false =>
      refine ⟨none, object_eq_some.mpr ?_, .inl rfl⟩
      exact List.getElem?_concat_length ..
  | true =>
      refine ⟨some s.share_fd.cells.length, object_eq_some.mpr ?_, .inr ⟨rfl, rfl⟩⟩
      exact List.getElem?_concat_length ..

theorem construct_kernel (share : Bool) : (s.construct share).kernel = s.kernel := by
  cases share <;> rfl

theorem Owned.innerSocket (h : s.Owned none) (share inTask : Bool) {fd : Int}
    (hunused : s.unused fd = true) (nonblocking : Bool) :
    (s.innerSocket share inTask fd nonblocking).Owned none := by
  have hmade := h.construct share
  obtain ⟨b, hobject, hb⟩ := construct_object s share
  unfold NetFds.innerSocket
  dsimp only
  rw [hobject]
  dsimp only
  split
  · exact (hmade.setFd hobject).fail
  split
  · exact (hmade.setFd hobject).fail
  rename_i hfd
  have hfree : (s.construct share).kernel fd = none := by
    rw [construct_kernel]
    simpa [unused, hfd] using hunused
  rcases hb with rfl | ⟨rfl, hcells⟩
  · have hopen := hmade.openPlain hfree
    have hset : ({ s.construct share with
        kernel := Function.update (s.construct share).kernel fd (some .plain) }.setNetFd
          s.netFd.length (some { osfd := ⟨fd, 0, 0⟩, owner_task := none, share_fd := none
                                 origin := none })).Owned none := by
      apply hopen.modify hobject
      · rfl
      · exact ⟨rfl, fun b hb => by cases hb⟩
    cases nonblocking with
    | true => exact hset
    | false =>
        apply hset.innerClose (n := s.netFd.length) (setNetFd_object hobject)
        intro _ b hb
        have hplain : Function.update (s.construct share).kernel fd (some .plain) fd =
            some (.shared b) := hb
        rw [Function.update_self] at hplain
        cases hplain
  · have hvalue : (s.construct share).share_fd.value s.share_fd.cells.length = some (-1) := by
      rw [hcells, SharedPtrs.value_make, if_pos rfl]
    have hcount : 0 < (s.construct share).share_fd.use_count s.share_fd.cells.length := by
      rw [hcells, SharedPtrs.use_count_make, if_pos rfl]
      omega
    have hopen := hmade.openShared hfree (by omega) hvalue hcount
    have hset := hopen.modify (g := ⟨⟨fd, 0, 0⟩, none, some s.share_fd.cells.length,
      some s.share_fd.cells.length⟩) hobject rfl ⟨rfl, fun c hc _ => by
        cases hc
        show ((s.construct share).share_fd.store _ fd).value _ = _
        rw [SharedPtrs.value_store (SharedPtrs.lt_of_value hvalue), if_pos rfl]⟩
    cases nonblocking <;> exact hset

/-! ## Every run -/

/-- No `NetFD` that is not shared is assigned to a shared one, and none closes the descriptor
of a shared socket, which it may still have from before the kernel gave it out again. -/
def careful (s : NetFds) : FdEvent → Bool
  | .assign _ n m => match s.object n, s.object m with
    | some f, some rfd => f.share_fd.isNone || rfd.share_fd.isSome
    | _, _ => true
  | .innerClose n => match s.object n with
    | some f => f.share_fd.isSome || !(s.kernel f.osfd.fd).any Socket.isShared
    | none => true
  | _ => true

def Careful (s : NetFds) (a : FdEvent) : Prop := s.careful a = true

instance (s : NetFds) (a : FdEvent) : Decidable (s.Careful a) :=
  inferInstanceAs (Decidable (_ = true))

theorem careful_innerClose (hf : s.object n = some f) :
    s.Careful (.innerClose n) ↔
      (f.share_fd = none → ∀ b, s.kernel f.osfd.fd ≠ some (.shared b)) := by
  unfold Careful careful
  dsimp only
  rw [hf]
  dsimp only
  cases f.share_fd with
  | some b => simp
  | none =>
      cases s.kernel f.osfd.fd with
      | none => simp
      | some socket => cases socket <;> simp [Socket.isShared]

theorem careful_assign {m : Nat} (hf : s.object n = some f) (hr : s.object m = some rfd)
    (task : Nat) : s.Careful (.assign task n m) ↔
      (f.share_fd.isSome → rfd.share_fd.isSome) := by
  unfold Careful careful
  dsimp only
  rw [hf, hr]
  dsimp only
  cases f.share_fd <;> cases rfd.share_fd <;> simp

theorem Owned.step (h : s.Owned none) {a : FdEvent} (hcareful : s.Careful a)
    (hs : s.step a = some t) : t.Owned none := by
  unfold NetFds.step at hs
  split at hs
  · cases hs
  cases a with
  | construct share =>
      cases hs
      exact h.construct share
  | innerSocket share inTask fd nonblocking =>
      obtain ⟨hunused, heq⟩ := Option.ite_none_right_eq_some.mp hs
      cases heq
      exact h.innerSocket share inTask hunused nonblocking
  | copy task rfd =>
      obtain ⟨r, hr, rfl⟩ := Option.map_eq_some_iff.mp hs
      exact h.copy hr task
  | assign task n rfd =>
      obtain ⟨f, hf, hs⟩ := Option.bind_eq_some_iff.mp hs
      obtain ⟨r, hr, rfl⟩ := Option.map_eq_some_iff.mp hs
      exact h.assign hf hr ((careful_assign hf hr task).mp hcareful) task
  | innerClose n =>
      obtain ⟨f, hf, rfl⟩ := Option.map_eq_some_iff.mp hs
      exact h.innerClose hf ((careful_innerClose hf).mp hcareful)
  | destroy n =>
      obtain ⟨f, hf, rfl⟩ := Option.map_eq_some_iff.mp hs
      exact h.destroy hf
  | setOwner n task =>
      obtain ⟨f, hf, rfl⟩ := Option.map_eq_some_iff.mp hs
      apply h.modify hf
      · rfl
      · exact ⟨h.origin f (mem_of_object hf), h.fd f (mem_of_object hf)⟩

/-- A step that is not careful breaks the contract at once. -/
theorem Owned.careful_of_closesOnce (h : s.Owned none) {a : FdEvent} (hs : s.step a = some t)
    (ht : t.ClosesOnce) : s.Careful a := by
  unfold NetFds.step at hs
  split at hs
  · cases hs
  cases a with
  | assign task n rfd =>
      obtain ⟨f, hf, hs⟩ := Option.bind_eq_some_iff.mp hs
      obtain ⟨r, hr, rfl⟩ := Option.map_eq_some_iff.mp hs
      rw [careful_assign hf hr]
      intro hshared
      by_contra hnone
      have hnone : r.share_fd = none := by simpa using hnone
      obtain ⟨g, hg, hgshare, hgorigin⟩ : ∃ g, (s.assign task n f r).object n = some g ∧
          g.share_fd = f.share_fd ∧ g.origin = none := by
        unfold NetFds.assign
        rw [hnone]
        dsimp only
        split
        · exact ⟨_, setNetFd_object hf, rfl, rfl⟩
        · exact ⟨_, setNetFd_object hf, rfl, rfl⟩
      have hiff := ht.shared g (mem_of_object hg)
      rw [hgshare, hgorigin] at hiff
      cases hiff.mp hshared
  | innerClose n =>
      obtain ⟨f, hf, rfl⟩ := Option.map_eq_some_iff.mp hs
      rw [careful_innerClose hf]
      intro hnone b hb
      obtain ⟨-, -, hpos⟩ := h.tracked.opened f.osfd.fd b hb
      obtain ⟨g, hg, horigin⟩ := h.refers_iff.mpr hpos
      have hclose : s.innerClose n f = { s with
          kernel := Function.update s.kernel f.osfd.fd none
          closed := s.closed ++ [b] }.setFd n f (-1) := by
        unfold NetFds.innerClose NetFds.closeSocket
        rw [hnone, hb]
      rw [hclose] at ht
      have hrefers : ({ s with
          kernel := Function.update s.kernel f.osfd.fd none
          closed := s.closed ++ [b] }.setFd n f (-1)).refers b := by
        obtain ⟨m, hm⟩ := List.getElem?_of_mem hg
        have hmn : m ≠ n := by
          rintro rfl
          rw [object_eq_some.mp hf] at hm
          cases hm
          rw [h.origin _ hg, hnone] at horigin
          cases horigin
        refine ⟨g, List.mem_of_getElem? (i := m) ?_, horigin⟩
        exact (List.getElem?_set_ne (Ne.symm hmn)).trans hm
      exact (ht.held b hrefers).2 (List.mem_append.mpr (.inr List.mem_cons_self))
  | construct share => rfl
  | innerSocket share inTask fd nonblocking => rfl
  | copy task rfd => rfl
  | destroy n => rfl
  | setOwner n task => rfl

theorem closesOnce_iff_careful (ndebug : Bool) (as : List FdEvent) (s : NetFds)
    (h : run step Free (make ndebug) as = some s) :
    (∀ bs u, bs <+: as → run step Free (make ndebug) bs = some u → u.ClosesOnce) ↔
      run step Careful (make ndebug) as = some s :=
  always_iff (I := fun s => s.Owned none) (fun _ hs => hs.closesOnce)
    (fun _ _ _ hs hc hstep => hs.step hc hstep)
    (fun _ _ _ hs hstep ht => hs.careful_of_closesOnce hstep ht) (owned_make ndebug) h

/-- A shared socket and a copy of it; the first is re-assigned to another shared socket, the
copy is destroyed. -/
theorem closesOnce_two_shared :
    ∃ s, run step Free (make true)
      [.innerSocket true true 5 true, .copy 1 0, .innerSocket true true 7 true,
        .assign 1 0 2, .innerClose 0, .destroy 1] = some s ∧
      s.closed = [0] ∧ s.ClosesOnce :=
  ⟨_, rfl, rfl, (closesOnce_iff_careful true
    [.innerSocket true true 5 true, .copy 1 0, .innerSocket true true 7 true,
      .assign 1 0 2, .innerClose 0, .destroy 1] _ rfl).mpr rfl _ _ (List.prefix_refl _) rfl⟩

/-- A `NetFD` that is not shared (descriptor 7) is assigned to the only one of a shared socket
(descriptor 5): it stays shared, with a descriptor that is not the one of its cell, and the
socket is not closed. -/
theorem not_closesOnce_after_assign :
    ¬ ∀ (ndebug : Bool) (as : List FdEvent) (s : NetFds),
      run step Free (make ndebug) as = some s → s.ClosesOnce := by
  intro hall
  obtain ⟨s, hrun, f, hf, hshare, hfd, horigin⟩ : ∃ s, run step Free (make true)
      [.innerSocket true true 5 true, .innerSocket false true 7 true, .assign 1 0 1] = some s ∧
        ∃ f, some f ∈ s.netFd ∧ f.share_fd = some 0 ∧ f.osfd.fd = 7 ∧ f.origin = none :=
    ⟨_, rfl, _, List.mem_cons_self, rfl, rfl, rfl⟩
  have hiff := (hall true _ s hrun).shared f hf
  rw [hshare, horigin] at hiff
  cases hiff.mp rfl

end NetFds

end CppGo.Netio.SharedFd
