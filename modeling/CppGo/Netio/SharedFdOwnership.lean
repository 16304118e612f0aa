import CppGo.Netio.SharedFd

/-!
# Who owns a shared socket

Every operation takes a reference, puts it into a `NetFD` or takes it out, and lets one
go: `Owned s hand` is the invariant with one reference in hand.
-/

namespace CppGo.Netio.SharedFd

open CppGo.Lib CppGo.Lib.Machine

namespace NetFds

variable {s t : NetFds} {f : NetFD} {n b : Nat} {hand : Option Nat}

def refs (s : NetFds) : List (Option Nat) := s.netFd.map fun o => o.bind NetFD.share_fd

/-- The kernel knows the sockets of the cells that are in use, and the other ones have been
closed once. -/
structure Tracked (h : SharedPtrs Int) (kernel : Int → Option Socket) (closed : List Nat) :
    Prop where
  known : ∀ b fd, h.value b = some fd → 0 ≤ fd → 0 < h.use_count b →
    kernel fd = some (.shared b)
  opened : ∀ fd b, kernel fd = some (.shared b) →
    h.value b = some fd ∧ 0 ≤ fd ∧ 0 < h.use_count b
  once : ∀ b fd, h.value b = some fd → 0 ≤ fd →
    closed.count b = if h.use_count b = 0 then 1 else 0
  logged : ∀ b ∈ closed, ∃ fd, h.value b = some fd ∧ 0 ≤ fd

structure Owned (s : NetFds) (hand : Option Nat) : Prop where
  held : s.share_fd.Held (hand :: s.refs)
  origin : ∀ f, some f ∈ s.netFd → f.origin = f.share_fd
  fd : ∀ f, some f ∈ s.netFd → ∀ b, f.share_fd = some b → 0 ≤ f.osfd.fd →
    s.share_fd.value b = some f.osfd.fd
  tracked : Tracked s.share_fd s.kernel s.closed

theorem object_eq_some : s.object n = some f ↔ s.netFd[n]? = some (some f) := by
  unfold object
  cases s.netFd[n]? with
  | none => simp
  | some o => simp

theorem mem_of_object (h : s.object n = some f) : some f ∈ s.netFd :=
  List.mem_of_getElem? (object_eq_some.mp h)

theorem mem_refs_of_object (h : s.object n = some f) : f.share_fd ∈ s.refs :=
  List.mem_map.mpr ⟨some f, mem_of_object h, rfl⟩

theorem owned_make (ndebug : Bool) : (make ndebug).Owned none where
  held := SharedPtrs.held_none_cons.mpr SharedPtrs.held_empty
  origin _ hf := absurd hf List.not_mem_nil
  fd _ hf := absurd hf List.not_mem_nil
  tracked :=
    { known := fun b fd hb => by cases hb
      opened := fun fd b hb => by cases hb
      once := fun b fd hb => by cases hb
      logged := fun b hb => absurd hb List.not_mem_nil }

/-! ## Sockets -/

section Tracked

variable {h h' : SharedPtrs Int} {kernel : Int → Option Socket} {closed : List Nat} {fd : Int}

theorem Tracked.of_same (ht : Tracked h kernel closed) (hvalue : ∀ b, h'.value b = h.value b)
    (hcount : ∀ b, h'.use_count b = 0 ↔ h.use_count b = 0) : Tracked h' kernel closed where
  known b fd hb hfd hpos := by
    rw [hvalue] at hb
    apply ht.known b fd hb hfd
    have := hcount b
    omega
  opened fd b hb := by
    obtain ⟨hval, hfd, hpos⟩ := ht.opened fd b hb
    rw [hvalue]
    have := hcount b
    exact ⟨hval, hfd, by omega⟩
  once b fd hb hfd := by
    rw [hvalue] at hb
    rw [ht.once b fd hb hfd]
    simp only [hcount]
  logged b hb := by
    rw [hvalue]
    exact ht.logged b hb

theorem Tracked.update_plain (ht : Tracked h kernel closed)
    (hfd : ∀ b, kernel fd ≠ some (.shared b)) {o : Option Socket}
    (ho : ∀ b, o ≠ some (.shared b)) : Tracked h (Function.update kernel fd o) closed where
  known b x hb hx hpos := by
    have hold := ht.known b x hb hx hpos
    have hne : x ≠ fd := by
      rintro rfl
      exact hfd b hold
    rw [Function.update_of_ne hne, hold]
  opened x b hb := by
    have hne : x ≠ fd := by
      rintro rfl
      rw [Function.update_self] at hb
      exact ho b hb
    rw [Function.update_of_ne hne] at hb
    exact ht.opened x b hb
  once := ht.once
  logged := ht.logged

theorem Tracked.close (ht : Tracked h kernel closed) (hvalue : h.value b = some fd)
    (hfd : 0 ≤ fd) (hone : h.use_count b = 1) :
    Tracked (h.release b) (Function.update kernel fd none) (closed ++ [b]) := by
  have hcount : ∀ c, (h.release b).use_count c = if b = c then 0 else h.use_count c := by
    intro c
    rw [SharedPtrs.use_count_release]
    split
    · rename_i hbc
      rw [← hbc, hone]
    · rfl
  have hk : kernel fd = some (.shared b) := ht.known b fd hvalue hfd (by omega)
  constructor
  · intro c x hc hx hpos
    rw [SharedPtrs.value_release] at hc
    rw [hcount] at hpos
    split at hpos
    · omega
    · rename_i hbc
      have hold := ht.known c x hc hx hpos
      have hne : x ≠ fd := by
        rintro rfl
        rw [hk] at hold
        cases hold
        exact hbc rfl
      rw [Function.update_of_ne hne, hold]
  · intro x c hc
    have hne : x ≠ fd := by
      rintro rfl
      rw [Function.update_self] at hc
      cases hc
    rw [Function.update_of_ne hne] at hc
    obtain ⟨hval, hx, hpos⟩ := ht.opened x c hc
    rw [SharedPtrs.value_release, hcount, if_neg]
    · exact ⟨hval, hx, hpos⟩
    · rintro rfl
      rw [hvalue] at hval
      exact hne (Option.some.inj hval).symm
  · intro c x hc hx
    rw [SharedPtrs.value_release] at hc
    rw [hcount, List.count_append, ht.once c x hc hx, List.count_singleton]
    by_cases hbc : b = c
    · subst hbc
      simp [hone]
    · simp [hbc]
  · intro c hc
    rw [SharedPtrs.value_release]
    rcases List.mem_append.mp hc with hc | hc
    · exact ht.logged c hc
    · rw [List.mem_singleton.mp hc]
      exact ⟨fd, hvalue, hfd⟩

theorem Tracked.release (ht : Tracked h kernel closed) (hvalue : h.value b = some fd)
    (hfd : fd < 0) : Tracked (h.release b) kernel closed := by
  have hne : ∀ {c x}, h.value c = some x → 0 ≤ x → b ≠ c := by
    rintro c x hc hx rfl
    rw [hvalue] at hc
    cases hc
    omega
  have hcount : ∀ {c}, b ≠ c → (h.release b).use_count c = h.use_count c := by
    intro c hbc
    rw [SharedPtrs.use_count_release, if_neg hbc, Nat.sub_zero]
  constructor
  · intro c x hc hx hpos
    rw [SharedPtrs.value_release] at hc
    rw [hcount (hne hc hx)] at hpos
    exact ht.known c x hc hx hpos
  · intro x c hc
    obtain ⟨hval, hx, hpos⟩ := ht.opened x c hc
    rw [SharedPtrs.value_release, hcount (hne hval hx)]
    exact ⟨hval, hx, hpos⟩
  · intro c x hc hx
    rw [SharedPtrs.value_release] at hc
    rw [hcount (hne hc hx)]
    exact ht.once c x hc hx
  · intro c hc
    rw [SharedPtrs.value_release]
    exact ht.logged c hc

theorem Tracked.make (ht : Tracked h kernel closed) (hfd : fd < 0) :
    Tracked (h.make fd) kernel closed := by
  have hvalue : ∀ {b x}, (h.make fd).value b = some x → 0 ≤ x →
      b ≠ h.cells.length ∧ h.value b = some x := by
    intro b x hb hx
    rw [SharedPtrs.value_make] at hb
    split at hb
    · cases hb
      omega
    · exact ⟨‹_›, hb⟩
  have hold : ∀ {b x}, h.value b = some x → (h.make fd).value b = some x ∧
      (h.make fd).use_count b = h.use_count b := by
    intro b x hb
    have hne := Nat.ne_of_lt (SharedPtrs.lt_of_value hb)
    rw [SharedPtrs.value_make, SharedPtrs.use_count_make, if_neg hne, if_neg hne]
    exact ⟨hb, rfl⟩
  constructor
  · intro b x hb hx hpos
    obtain ⟨-, hb⟩ := hvalue hb hx
    rw [(hold hb).2] at hpos
    exact ht.known b x hb hx hpos
  · intro x b hb
    obtain ⟨hval, hx, hpos⟩ := ht.opened x b hb
    rw [(hold hval).2]
    exact ⟨(hold hval).1, hx, hpos⟩
  · intro b x hb hx
    obtain ⟨-, hb⟩ := hvalue hb hx
    rw [(hold hb).2]
    exact ht.once b x hb hx
  · intro b hb
    obtain ⟨x, hval, hx⟩ := ht.logged b hb
    exact ⟨x, (hold hval).1, hx⟩

theorem Tracked.open (ht : Tracked h kernel closed) (hfd : kernel fd = none) (hpos : 0 ≤ fd)
    (hvalue : h.value b = some (-1)) (hcount : 0 < h.use_count b) :
    Tracked (h.store b fd) (Function.update kernel fd (some (.shared b))) closed := by
  have hb := SharedPtrs.lt_of_use_count hcount
  constructor
  · intro c x hc hx hcpos
    rw [SharedPtrs.value_store hb] at hc
    rw [SharedPtrs.use_count_store] at hcpos
    split at hc
    · rename_i hbc
      cases hc
      rw [← hbc, Function.update_self]
    · have hold := ht.known c x hc hx hcpos
      have hne : x ≠ fd := by
        rintro rfl
        rw [hfd] at hold
        cases hold
      rw [Function.update_of_ne hne, hold]
  · intro x c hc
    rw [SharedPtrs.value_store hb, SharedPtrs.use_count_store]
    by_cases hx : x = fd
    · rw [hx, Function.update_self] at hc
      cases hc
      rw [if_pos rfl, hx]
      exact ⟨rfl, hpos, hcount⟩
    · rw [Function.update_of_ne hx] at hc
      obtain ⟨hval, hnonneg, hcpos⟩ := ht.opened x c hc
      rw [if_neg]
      · exact ⟨hval, hnonneg, hcpos⟩
      · rintro rfl
        rw [hvalue] at hval
        cases hval
        omega
  · intro c x hc hx
    rw [SharedPtrs.value_store hb] at hc
    rw [SharedPtrs.use_count_store]
    split at hc
    · rename_i hbc
      subst hbc
      rw [if_neg (by omega)]
      apply List.count_eq_zero_of_not_mem
      intro hin
      obtain ⟨y, hy, hnonneg⟩ := ht.logged b hin
      rw [hvalue] at hy
      cases hy
      omega
    · exact ht.once c x hc hx
  · intro c hc
    rw [SharedPtrs.value_store hb]
    split
    · exact ⟨fd, rfl, hpos⟩
    · exact ht.logged c hc

end Tracked

theorem closeSocket_of_plain {fd : Int} (hfd : ∀ b, s.kernel fd ≠ some (.shared b)) :
    s.closeSocket fd = { s with kernel := Function.update s.kernel fd none } := by
  unfold closeSocket
  cases hk : s.kernel fd with
  | none =>
      show s = { s with kernel := Function.update s.kernel fd none }
      rw [← hk, Function.update_eq_self]
  | some socket =>
      cases socket with
      | plain => rfl
      | shared b => exact absurd hk (hfd b)

/-! ## One reference in hand -/

theorem Owned.retain (h : s.Owned none) (hb : some b ∈ s.refs) : (s.retain b).Owned (some b) where
  held := (SharedPtrs.held_none_cons.mp h.held).retain hb
  origin := h.origin
  fd f hf c hc hfd := by
    show (s.share_fd.retain b).value c = _
    rw [SharedPtrs.value_retain]
    exact h.fd f hf c hc hfd
  tracked := by
    have hpos := (SharedPtrs.held_none_cons.mp h.held).pos.mpr hb
    apply h.tracked.of_same
    · exact fun c => SharedPtrs.value_retain
    · intro c
      show (s.share_fd.retain b).use_count c = 0 ↔ _
      rw [SharedPtrs.use_count_retain (SharedPtrs.lt_of_use_count hpos)]
      by_cases hbc : b = c
      · subst hbc
        rw [if_pos rfl]
        omega
      · rw [if_neg hbc, Nat.add_zero]

/-- What a `NetFD` that is put into the place of another one must satisfy. -/
def Fits (s : NetFds) (f : NetFD) : Prop :=
  f.origin = f.share_fd ∧ ∀ b, f.share_fd = some b → 0 ≤ f.osfd.fd →
    s.share_fd.value b = some f.osfd.fd

theorem Owned.fits (h : s.Owned hand) (hf : s.object n = some f) : s.Fits f :=
  ⟨h.origin f (mem_of_object hf), h.fd f (mem_of_object hf)⟩

theorem Owned.push (h : s.Owned f.share_fd) (hf : s.Fits f) : (s.push f).Owned none := by
  have hmem : ∀ g, some g ∈ (s.push f).netFd → some g ∈ s.netFd ∨ g = f := by
    intro g hg
    rcases List.mem_append.mp hg with hg | hg
    · exact .inl hg
    · exact .inr (Option.some.inj (List.mem_singleton.mp hg))
  have hrefs : (s.push f).refs = s.refs ++ [f.share_fd] := by
    unfold refs NetFds.push
    rw [List.map_append]
    rfl
  constructor
  · rw [hrefs]
    apply SharedPtrs.held_none_cons.mpr
    exact h.held.perm (List.perm_append_singleton _ _).symm
  · intro g hg
    rcases hmem g hg with hg | rfl
    · exact h.origin g hg
    · exact hf.1
  · intro g hg
    rcases hmem g hg with hg | rfl
    · exact h.fd g hg
    · exact hf.2
  · exact h.tracked

/-- The reference goes into the place of a `NetFD`, whose own one is then in hand. -/
theorem Owned.exchange {o : Option NetFD} (h : s.Owned (o.bind NetFD.share_fd))
    (hn : s.object n = some f) (hfits : ∀ g, o = some g → s.Fits g) :
    (s.setNetFd n o).Owned f.share_fd := by
  have hmem : ∀ g, some g ∈ (s.setNetFd n o).netFd → some g ∈ s.netFd ∨ o = some g := by
    intro g hg
    rcases List.mem_or_eq_of_mem_set hg with hg | hg
    · exact .inl hg
    · exact .inr hg.symm
  have hrefs : (s.setNetFd n o).refs = s.refs.set n (o.bind NetFD.share_fd) := by
    unfold refs setNetFd
    rw [List.map_set]
  have hget : s.refs[n]? = some f.share_fd := by
    unfold refs
    rw [List.getElem?_map, object_eq_some.mp hn]
    rfl
  constructor
  · rw [hrefs]
    exact h.held.perm (perm_cons_set _ hget)
  · intro g hg
    rcases hmem g hg with hg | hg
    · exact h.origin g hg
    · exact (hfits g hg).1
  · intro g hg
    rcases hmem g hg with hg | hg
    · exact h.fd g hg
    · exact (hfits g hg).2
  · exact h.tracked

theorem Owned.modify {g : NetFD} (h : s.Owned none) (hn : s.object n = some f)
    (hshare : g.share_fd = f.share_fd) (hfits : s.Fits g) :
    (s.setNetFd n (some g)).Owned none := by
  have hget : s.refs[n]? = some f.share_fd := by
    unfold refs
    rw [List.getElem?_map, object_eq_some.mp hn]
    rfl
  have hmem : ∀ x, some x ∈ (s.setNetFd n (some g)).netFd → some x ∈ s.netFd ∨ g = x := by
    intro x hx
    rcases List.mem_or_eq_of_mem_set hx with hx | hx
    · exact .inl hx
    · exact .inr (Option.some.inj hx).symm
  have hrefs : (s.setNetFd n (some g)).refs = s.refs.set n f.share_fd := by
    unfold refs setNetFd
    rw [List.map_set, ← hshare]
    rfl
  constructor
  · rw [hrefs]
    exact h.held.perm ((perm_cons_set _ hget).cons_inv.cons none)
  · intro x hx
    rcases hmem x hx with hx | rfl
    · exact h.origin x hx
    · exact hfits.1
  · intro x hx
    rcases hmem x hx with hx | rfl
    · exact h.fd x hx
    · exact hfits.2
  · exact h.tracked

theorem Owned.closeSocket (h : s.Owned hand) {fd : Int}
    (hfd : ∀ b, s.kernel fd ≠ some (.shared b)) : (s.closeSocket fd).Owned hand := by
  rw [closeSocket_of_plain hfd]
  exact ⟨h.held, h.origin, h.fd, h.tracked.update_plain hfd fun b hb => by cases hb⟩

theorem Owned.drop (h : s.Owned hand) : (s.drop hand).Owned none := by
  cases hand with
  | none => exact h
  | some b =>
      have hpos : 0 < s.share_fd.use_count b := h.held.pos.mpr List.mem_cons_self
      have hheld : (s.share_fd.release b).Held (none :: s.refs) :=
        SharedPtrs.held_none_cons.mpr h.held.release
      have hcount : (s.share_fd.release b).use_count b = s.share_fd.use_count b - 1 := by
        rw [SharedPtrs.use_count_release, if_pos rfl]
      have hfd : ∀ f, some f ∈ s.netFd → ∀ c, f.share_fd = some c → 0 ≤ f.osfd.fd →
          (s.share_fd.release b).value c = some f.osfd.fd := by
        intro f hf c hc hnonneg
        rw [SharedPtrs.value_release]
        exact h.fd f hf c hc hnonneg
      by_cases hone : s.share_fd.use_count b = 1
      · obtain ⟨fd, hvalue⟩ : ∃ fd, s.share_fd.value b = some fd := by
          have hlt := SharedPtrs.lt_of_use_count hpos
          exact ⟨_, by rw [SharedPtrs.value, List.getElem?_eq_getElem hlt]; rfl⟩
        have hdrop : s.drop (some b) =
            { s with share_fd := s.share_fd.release b }.closeSocket fd := by
          unfold NetFds.drop
          dsimp only
          rw [if_pos (by omega), SharedPtrs.value_release, hvalue]
          rfl
        rw [hdrop]
        by_cases hnonneg : 0 ≤ fd
        · have hk := h.tracked.known b fd hvalue hnonneg hpos
          have hclose : { s with share_fd := s.share_fd.release b }.closeSocket fd =
              { s with
                share_fd := s.share_fd.release b
                kernel := Function.update s.kernel fd none
                closed := s.closed ++ [b] } := by
            unfold NetFds.closeSocket
            dsimp only
            rw [hk]
          rw [hclose]
          exact ⟨hheld, h.origin, hfd, h.tracked.close hvalue hnonneg hone⟩
        · have hunopened : { s with share_fd := s.share_fd.release b }.Owned none :=
            ⟨hheld, h.origin, hfd, h.tracked.release hvalue (by omega)⟩
          apply hunopened.closeSocket
          intro c hc
          exact hnonneg (h.tracked.opened fd c hc).2.1
      · have hdrop : s.drop (some b) = { s with share_fd := s.share_fd.release b } := by
          unfold NetFds.drop
          dsimp only
          rw [if_neg (by omega)]
        rw [hdrop]
        refine ⟨hheld, h.origin, hfd, h.tracked.of_same (fun _ => SharedPtrs.value_release) ?_⟩
        intro c
        rw [SharedPtrs.use_count_release]
        by_cases hbc : b = c
        · subst hbc
          rw [if_pos rfl]
          omega
        · rw [if_neg hbc, Nat.sub_zero]

end NetFds

end CppGo.Netio.SharedFd
