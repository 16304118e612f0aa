import CppGo.Netio.ResidContract

/-!
# What `st_writev` sends

`st_writev` describes the bytes that are left twice: by `nleft`, and by the array that
`tmp_iov` points to.  The two agree after every partial transfer, so the call sends a
prefix of the buffers and returns their total exactly when it has sent all of them.
-/

namespace CppGo.Netio

open CppGo.Lib

theorem locate_bytes {n k : Nat} {v : Iovec} {iov rest : List Iovec}
    (h : locate n iov = some (k, v :: rest)) : bytes (v.drop k :: rest) = (bytes iov).drop n := by
  induction iov generalizing n with
  | nil => cases h
  | cons w iov ih =>
      rw [locate] at h
      split at h
      · rename_i hle
        rw [ih h, drop_bytes_cons hle]
      · cases h
        exact bytes_remaining (by omega)

theorem locate_anti {n m k j : Nat} {iov rest rest' : List Iovec} (hle : n ≤ m)
    (h : locate n iov = some (k, rest)) (h' : locate m iov = some (j, rest')) :
    rest'.length ≤ rest.length := by
  induction iov generalizing n m with
  | nil => cases h
  | cons v iov ih =>
      rw [locate] at h h'
      split at h
      · rename_i hv
        rw [if_pos (by omega)] at h'
        exact ih (by omega) h h'
      · cases h
        split at h'
        · have := locate_length h'
          rw [List.length_cons]
          omega
        · cases h'
          exact le_rfl

/-- `tmp_iov` is the caller's array, or the copy of what is left of it. -/
structure Gathered (iov : List Iovec) (g : Gather) : Prop where
  pos : 0 < g.nleft
  bound : g.nleft ≤ totalLen iov
  whole : g.room = none → g.tmp_iov = iov ∧ g.nleft = totalLen iov
  copied : ∀ room, g.room = some room → ∃ k v rest,
    locate (totalLen iov - g.nleft) iov = some (k, v :: rest) ∧ g.tmp_iov = v.drop k :: rest ∧
      rest.length + 1 ≤ room

namespace Gathered

variable {iov : List Iovec} {g : Gather}

theorem bytes_tmp_iov (h : Gathered iov g) :
    bytes g.tmp_iov = (bytes iov).drop (totalLen iov - g.nleft) := by
  cases hroom : g.room with
  | none =>
      obtain ⟨htmp, hleft⟩ := h.whole hroom
      rw [htmp, hleft, Nat.sub_self, List.drop_zero]
  | some room =>
      obtain ⟨k, v, rest, hlocate, htmp, -⟩ := h.copied room hroom
      rw [htmp, locate_bytes hlocate]

theorem totalLen_tmp_iov (h : Gathered iov g) : totalLen g.tmp_iov = g.nleft := by
  have hbound := h.bound
  rw [← length_bytes, h.bytes_tmp_iov, List.length_drop, length_bytes]
  omega

/-- The copy that is made when `n` more bytes are sent, and the room for it. -/
theorem copy (h : Gathered iov g) {n : Nat} (hn : n < g.nleft) :
    ∃ k v rest, locate (totalLen iov - (g.nleft - n)) iov = some (k, v :: rest) ∧
      (∀ room, g.room = some room → rest.length + 1 ≤ room) ∧
      ∀ room, rest.length + 1 ≤ room →
        Gathered iov { tmp_iov := v.drop k :: rest, room := some room, nleft := g.nleft - n } := by
  have hbound := h.bound
  have hpos : totalLen iov - (g.nleft - n) < totalLen iov := by omega
  obtain ⟨k, v, rest, hlocate⟩ := locate_spec hpos
  refine ⟨k, v, rest, hlocate, ?_, ?_⟩
  · intro room hroom
    obtain ⟨j, w, rest', hlocate', -, hle⟩ := h.copied room hroom
    have hanti := locate_anti (by omega) hlocate' hlocate
    simp only [List.length_cons] at hanti
    omega
  · intro room hle
    constructor
    · show 0 < g.nleft - n
      omega
    · show g.nleft - n ≤ _
      omega
    · intro hroom
      cases hroom
    · intro room' hroom'
      cases hroom'
      exact ⟨k, v, rest, hlocate, rfl, hle⟩

end Gathered

def WritevAt (iov : List Iovec) (xs : List (Request × Reply)) : WritevPc ⊕ Exit → Prop
  | .inl (.writev g) | .inl (.poll g) =>
      Gathered iov g ∧ transferred xs ++ bytes g.tmp_iov = bytes iov
  | .inl (.write g _ pc) =>
      g.nleft ≤ totalLen iov ∧ Cursor (bytes iov) 1 (.inl pc) xs ∧
        0 < totalLen (ResidPc.left (.inl pc)) ∧ totalLen (ResidPc.left (.inl pc)) ≤ g.nleft
  | .inr e =>
      transferred xs <+: bytes iov ∧ e ≠ .overrun ∧
        ∀ ret, e = .returned ret → totalLen iov ≠ 0 →
          (ret = totalLen iov ↔ transferred xs = bytes iov)

section Writev

variable {fd timeout : Int} {iov : List Iovec} {alloc : Bool} {g : Gather}
  {xs : List (Request × Reply)}

theorem writevAt_enter (h : Gathered iov g)
    (hsplit : transferred xs ++ bytes g.tmp_iov = bytes iov) :
    WritevAt iov xs (WritevPc.enter fd (nbyte iov) timeout g) := by
  have hpos := h.pos
  have htotal := h.totalLen_tmp_iov
  rw [WritevPc.enter, if_neg (by omega)]
  rcases htmp : g.tmp_iov with _ | ⟨v, _ | ⟨w, rest⟩⟩
  · exact ⟨h, hsplit⟩
  · -- the only element has the length `nleft`
    rw [htmp, totalLen_cons, totalLen_nil, Nat.add_zero] at htotal
    have hv : bytes [⟨v.iov_base, g.nleft⟩] = bytes g.tmp_iov := by
      rw [htmp, ← htotal]
    refine ⟨h.bound, ⟨?_, by simp, by simp [ResidPc.left], by simp [ResidPc.left]⟩, ?_, ?_⟩
    · show transferred xs ++ bytes [⟨v.iov_base, g.nleft⟩] = bytes iov
      rw [hv, hsplit]
    · show 0 < totalLen [⟨v.iov_base, g.nleft⟩]
      simpa using hpos
    · show totalLen [⟨v.iov_base, g.nleft⟩] ≤ g.nleft
      simp
  · exact ⟨h, hsplit⟩

theorem writevAt_failed (hleft : 0 < totalLen iov → transferred xs ≠ bytes iov)
    (hinit : transferred xs <+: bytes iov) {ret : Int} (hret : ret ≤ 0) :
    WritevAt iov xs (.inr (.returned ret)) := by
  refine ⟨hinit, by simp, ?_⟩
  rintro ret' heq hne
  cases heq
  apply iff_of_false
  · omega
  · exact hleft (by omega)

theorem Gathered.unsent (h : Gathered iov g)
    (hsplit : transferred xs ++ bytes g.tmp_iov = bytes iov) : transferred xs ≠ bytes iov := by
  intro hall
  have hpos := h.pos
  have htotal := h.totalLen_tmp_iov
  have hlen := congrArg List.length hsplit
  rw [hall, List.length_append, length_bytes g.tmp_iov] at hlen
  omega

theorem writevAt_writev (hlong : totalLen iov < 2 ^ 31) {r : Reply} (h : Gathered iov g)
    (hsplit : transferred xs ++ bytes g.tmp_iov = bytes iov)
    (hle : r.ret ≤ totalLen g.tmp_iov) :
    WritevAt iov (xs ++ [(.writev fd g.tmp_iov, r)])
      ((stWritev fd iov alloc timeout).hear (.writev g) r) := by
  have hnbyte : nbyte iov = totalLen iov := Nat.mod_eq_of_lt (by omega)
  have htotal := h.totalLen_tmp_iov
  have hunsent := h.unsent hsplit
  simp only [stWritev]
  split
  · rename_i hret
    have hsame := transferred_failed hret xs (.writev fd g.tmp_iov)
    rw [← hsame] at hsplit hunsent
    unfold refused
    split_ifs
    · exact ⟨h, hsplit⟩
    · exact writevAt_failed (fun _ => hunsent) ⟨_, hsplit⟩ (by omega)
    · exact writevAt_failed (fun _ => hunsent) ⟨_, hsplit⟩ le_rfl
    · exact ⟨h, hsplit⟩
  · rename_i hret
    obtain ⟨n, hn⟩ := Int.eq_ofNat_of_zero_le (not_lt.mp hret)
    have hmoved : transferred (xs ++ [(.writev fd g.tmp_iov, r)]) =
        transferred xs ++ (bytes g.tmp_iov).take n := by
      rw [transferred_concat, hn, Int.toNat_natCast]
      rfl
    split
    · -- everything is sent
      have hall : transferred (xs ++ [(.writev fd g.tmp_iov, r)]) = bytes iov := by
        rw [hmoved, List.take_of_length_le (by rw [length_bytes]; omega), hsplit]
      refine ⟨⟨[], by rw [hall, List.append_nil]⟩, by simp, ?_⟩
      intro ret heq _
      cases heq
      rw [hnbyte]
      exact iff_of_true rfl hall
    · obtain ⟨k, v, rest, hlocate, hroom, hcopy⟩ := h.copy (n := n) (by omega)
      rw [hn, Int.toNat_natCast, hnbyte]
      simp only [WritevPc.copy, hlocate]
      have hsent : ∀ g', Gathered iov g' → g'.nleft = g.nleft - n →
          transferred (xs ++ [(.writev fd g.tmp_iov, r)]) ++ bytes g'.tmp_iov = bytes iov := by
        intro g' hg' hleft
        have hbound := h.bound
        have hrest : bytes g'.tmp_iov = (bytes g.tmp_iov).drop n := by
          rw [hg'.bytes_tmp_iov, h.bytes_tmp_iov, hleft, List.drop_drop]
          congr 1
          omega
        rw [hmoved, hrest, List.append_assoc, List.take_append_drop, hsplit]
      cases hg : g.room with
      | some room => exact ⟨hcopy room (hroom room hg), hsent _ (hcopy room (hroom room hg)) rfl⟩
      | none =>
          simp only [List.length_cons]
          split_ifs with hlocal halloc
          · exact ⟨hcopy _ hlocal, hsent _ (hcopy _ hlocal) rfl⟩
          · exact ⟨hcopy _ le_rfl, hsent _ (hcopy _ le_rfl) rfl⟩
          · have hrest := hsent _ (hcopy _ le_rfl) rfl
            exact writevAt_failed (fun _ => (hcopy _ le_rfl).unsent hrest) ⟨_, hrest⟩ (by omega)

def OneLeft (nleft : Nat) : ResidPc ⊕ Exit × List Iovec → Prop
  | .inl pc => 0 < totalLen (ResidPc.left (.inl pc)) ∧ totalLen (ResidPc.left (.inl pc)) ≤ nleft
  | .inr (e, rest) =>
      totalLen rest ≤ nleft ∧ ∃ rv, e = .returned rv ∧ (totalLen rest = 0 → rv = 0)

theorem write_hear {buf nleft : Nat} {pc : ResidPc} {r : Reply}
    (h : Cursor (bytes iov) 1 (.inl pc) xs) (hpos : 0 < totalLen (ResidPc.left (.inl pc)))
    (hbound : totalLen (ResidPc.left (.inl pc)) ≤ nleft)
    (hfit : ((stWrite fd buf nleft timeout).ask pc).Moves r) :
    Cursor (bytes iov) 1 ((stWritevResid fd [⟨buf, nleft⟩] timeout).hear pc r)
        (xs ++ [((stWrite fd buf nleft timeout).ask pc, r)]) ∧
      OneLeft nleft ((stWritevResid fd [⟨buf, nleft⟩] timeout).hear pc r) := by
  cases pc with
  | poll rest =>
      refine ⟨h.polled fd POLLOUT timeout, ?_⟩
      simp only [stWritevResid, ResidPc.polled]
      split
      · exact ⟨hbound, -1, rfl, fun hzero => absurd hzero hpos.ne'⟩
      · exact ⟨hpos, hbound⟩
  | call rest =>
      obtain ⟨hregion, hsize⟩ := ask_writev fd [⟨buf, nleft⟩] timeout rest
      have hshort : rest.length ≤ 1 := h.shorter
      by_cases hret : r.ret < 0
      · have hcursor := h.failed (q := (stWrite fd buf nleft timeout).ask (.call rest)) hret timeout
        simp only [stWritevResid, if_pos hret]
        refine ⟨hcursor, ?_⟩
        unfold ResidPc.failed refused
        split_ifs
        · exact ⟨hpos, hbound⟩
        · exact ⟨hbound, -1, rfl, fun hzero => absurd hzero hpos.ne'⟩
        · exact ⟨hbound, 0, rfl, fun _ => rfl⟩
        · exact ⟨hpos, hbound⟩
      · have hcursor := h.moved hregion (hfit _ hsize) (not_lt.mp hret)
        simp only [stWritevResid, if_neg hret]
        refine ⟨hcursor, ?_⟩
        rcases rest with _ | ⟨v, _ | ⟨w, rest⟩⟩
        · cases hpos
        · simp only [ResidPc.left, totalLen_cons, totalLen_nil, Nat.add_zero] at hpos hbound
          have hle := hfit _ hsize
          simp only [totalLen_cons, totalLen_nil, Nat.add_zero] at hle
          by_cases hall : v.iov_len ≤ r.ret.toNat
          · have hzero : r.ret.toNat - v.iov_len = 0 := by omega
            simp only [ResidPc.moved, advance, if_pos hall, if_pos hzero]
            exact ⟨Nat.zero_le _, 0, rfl, fun _ => rfl⟩
          · simp only [ResidPc.moved, advance, if_neg hall]
            simp only [OneLeft, ResidPc.left, totalLen_cons, totalLen_nil, Iovec.drop]
            omega
        · simp at hshort

theorem writevAt_write (hlong : totalLen iov < 2 ^ 31) {buf : Nat} {pc : ResidPc} {r : Reply}
    (h : WritevAt iov xs (.inl (.write g buf pc)))
    (hfit : ((stWrite fd buf g.nleft timeout).ask pc).Moves r) :
    WritevAt iov (xs ++ [((stWrite fd buf g.nleft timeout).ask pc, r)])
      ((stWritev fd iov alloc timeout).hear (.write g buf pc) r) := by
  have hnbyte : nbyte iov = totalLen iov := Nat.mod_eq_of_lt (by omega)
  obtain ⟨hleft, hcursor, hpos, hbound⟩ := h
  obtain ⟨hcursor', hone⟩ := write_hear hcursor hpos hbound hfit
  have hhear_write : (stWritev fd iov alloc timeout).hear (.write g buf pc) r =
      ((((stWritevResid fd [⟨buf, g.nleft⟩] timeout).hear pc r).map id
        fun res => (res.1, firstLen res.2)).map id (writeRet g.nleft)).map (.write g buf)
          (WritevPc.wrote (nbyte iov) g.nleft) := rfl
  rw [hhear_write]
  cases hhear : (stWritevResid fd [⟨buf, g.nleft⟩] timeout).hear pc r with
  | inl pc' =>
      rw [hhear] at hcursor' hone
      exact ⟨hleft, hcursor', hone⟩
  | inr res =>
      obtain ⟨e, rest⟩ := res
      rw [hhear] at hcursor' hone
      obtain ⟨hrest, rv, rfl, hzero⟩ := hone
      have hfirst : firstLen rest = totalLen rest := firstLen_eq hcursor'.shorter
      have hsplit := hcursor'.split
      have hlen := congrArg List.length hsplit
      rw [List.length_append, ResidPc.left, length_bytes, length_bytes] at hlen
      simp only [Sum.map_inr, writeRet, WritevPc.wrote, hfirst, hnbyte]
      by_cases hall : totalLen rest = 0
      · -- `st_write` returns what it was given
        obtain rfl : rv = 0 := hzero hall
        rw [if_pos rfl, hall, Nat.sub_zero, toInt_of_lt (by omega), if_neg (not_not.mpr rfl)]
        have hnil : bytes rest = [] := by
          rw [← List.length_eq_zero_iff, length_bytes, hall]
        rw [ResidPc.left, hnil, List.append_nil] at hsplit
        refine ⟨⟨[], by rw [hsplit, List.append_nil]⟩, by simp, ?_⟩
        intro ret heq _
        cases heq
        exact iff_of_true rfl hsplit
      · have hret : (if rv = 0 then toInt (g.nleft - totalLen rest) else -1) ≠ (g.nleft : Int) := by
          split
          · rw [toInt_of_lt (by omega)]
            omega
          · omega
        rw [if_pos hret]
        refine writevAt_failed (fun _ hsent => ?_) ⟨_, hsplit⟩ (by omega)
        rw [hsent, length_bytes] at hlen
        omega

theorem writevAt_start (hlong : totalLen iov < 2 ^ 31) :
    WritevAt iov [] (stWritev fd iov alloc timeout).start := by
  have hnbyte : nbyte iov = totalLen iov := Nat.mod_eq_of_lt (by omega)
  by_cases hzero : totalLen iov = 0
  · simp only [stWritev, WritevPc.enter, hnbyte, hzero, if_true]
    exact ⟨List.nil_prefix, by simp, fun ret _ hne => absurd hzero hne⟩
  · refine writevAt_enter ⟨?_, hnbyte.le, fun _ => ⟨rfl, hnbyte⟩, fun _ h => ?_⟩ rfl
    · show 0 < nbyte iov
      omega
    · cases h

theorem writevAt_hear (hlong : totalLen iov < 2 ^ 31) {s : WritevPc} {r : Reply}
    (h : WritevAt iov xs (.inl s)) (hfit : ((stWritev fd iov alloc timeout).ask s).Moves r) :
    WritevAt iov (xs ++ [((stWritev fd iov alloc timeout).ask s, r)])
      ((stWritev fd iov alloc timeout).hear s r) := by
  cases s with
  | writev g => exact writevAt_writev hlong h.1 h.2 (hfit _ rfl)
  | write g buf pc => exact writevAt_write hlong h hfit
  | poll g =>
      obtain ⟨hg, hsplit⟩ := h
      rw [← transferred_poll xs fd POLLOUT timeout r] at hsplit
      simp only [stWritev]
      split
      · exact writevAt_failed (fun _ => hg.unsent hsplit) ⟨_, hsplit⟩ (by omega)
      · exact writevAt_enter hg hsplit

end Writev

end CppGo.Netio
