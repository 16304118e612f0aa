import CppGo.Netio.WritevContract
import Mathlib.Logic.Function.Basic

/-!
# The arrays of `st_writev`

The same call with the storage that it reads and writes: the caller's array, `local_iov`
on the stack, and what `calloc` returns.  An index behind the end of an array is an
`overrun`, whether it is read or written.
-/

namespace CppGo.Netio

open CppGo.Lib

/-- What `tmp_iov` points to. -/
inductive Storage
  | iov
  | local_iov
  | heap
deriving DecidableEq, Repr

structure WritevFrame where
  arrays : Storage → List Iovec
  tmp_iov : Storage
  iov_cnt : Nat
  nleft : Nat

namespace WritevFrame

def iov_size (f : WritevFrame) : Nat := (f.arrays .iov).length

/-- `stack` is what `local_iov` holds before it is written. -/
def make (iov : List Iovec) (stack : Nat → Iovec) : WritevFrame :=
  { arrays := fun
      | .iov => iov
      | .local_iov => (List.range LOCAL_MAXIOV).map stack
      | .heap => []
    tmp_iov := .iov
    iov_cnt := iov.length
    nleft := nbyte iov }

def put (f : WritevFrame) (i : Nat) (v : Iovec) : Option WritevFrame :=
  if i < (f.arrays f.tmp_iov).length then
    some { f with arrays := Function.update f.arrays f.tmp_iov ((f.arrays f.tmp_iov).set i v) }
  else none

/-- The search for the first element that is not sent, at `index`: how much of it is sent,
and where it is. -/
def search : Nat → Nat → List Iovec → Option (Nat × Nat)
  | _, _, [] => none
  | n, index, v :: iov =>
      if v.iov_len ≤ n then search (n - v.iov_len) (index + 1) iov else some (n, index)

/-- Where the copy goes; none if `calloc` finds no memory. -/
def store (f : WritevFrame) (alloc : Bool) (size : Nat) : Option WritevFrame :=
  if f.tmp_iov = .iov then
    if size ≤ LOCAL_MAXIOV then some { f with tmp_iov := .local_iov }
    else if alloc then
      some { f with
        arrays := Function.update f.arrays .heap (List.replicate size ⟨0, 0⟩)
        tmp_iov := .heap }
    else none
  else some f

/-- The loop that copies the other elements, with the number of its rounds. -/
def copyRest : Nat → Nat → WritevFrame → Option WritevFrame
  | 0, _, f => some f
  | rounds + 1, index, f => do
      let v ← (f.arrays .iov)[index]?
      let f ← f.put f.iov_cnt v
      copyRest rounds (index + 1) { f with iov_cnt := f.iov_cnt + 1 }

/-- The copy of the elements from `index` on, of the first of which `n` bytes are sent. -/
def fill (f : WritevFrame) (n index : Nat) : Option WritevFrame := do
  let v ← (f.arrays .iov)[index]?
  let f ← f.put 0 (v.drop n)
  copyRest (f.iov_size - (index + 1)) (index + 1) { f with iov_cnt := 1 }

def copy (f : WritevFrame) (nbyte : Nat) (alloc : Bool) (n : Nat) : WritevFrame ⊕ Exit :=
  let f := { f with nleft := f.nleft - n }
  match search (nbyte - f.nleft) 0 (f.arrays .iov) with
  | none => .inr .overrun
  | some (n, index) =>
      match f.store alloc (f.iov_size - index) with
      | none => .inr (.returned (-1))
      | some f =>
          match f.fill n index with
          | none => .inr .overrun
          | some f => .inl f

def given (f : WritevFrame) : List Iovec := (f.arrays f.tmp_iov).take f.iov_cnt

end WritevFrame

inductive FramePc
  | writev (f : WritevFrame)
  | poll (f : WritevFrame)
  /-- in `st_write` -/
  | write (f : WritevFrame) (buf : Nat) (pc : ResidPc)

namespace FramePc

def frame : FramePc → WritevFrame
  | .writev f | .poll f | .write f _ _ => f

def ended (f : WritevFrame) (e : Exit) : FramePc ⊕ Exit × WritevFrame := .inr (e, f)

def enter (sockfd : Int) (nbyte : Nat) (timeout : Int) (f : WritevFrame) :
    FramePc ⊕ Exit × WritevFrame :=
  if f.nleft = 0 then ended f (.returned nbyte)
  else if f.iov_cnt = 1 then
    match (f.arrays f.tmp_iov)[0]? with
    | none => ended f .overrun
    | some v => (stWrite sockfd v.iov_base f.nleft timeout).start.map (.write f v.iov_base)
        fun e => (WritevPc.wrote nbyte f.nleft e, f)
  else .inl (.writev f)

end FramePc

def stWritevArrays (sockfd : Int) (iov : List Iovec) (stack : Nat → Iovec) (alloc : Bool)
    (timeout : Int) : Client FramePc Request Reply (Exit × WritevFrame) where
  start := FramePc.enter sockfd (nbyte iov) timeout (WritevFrame.make iov stack)
  ask
    | .writev f => .writev sockfd f.given
    | .poll _ => .poll sockfd POLLOUT timeout
    | .write f buf pc => (stWrite sockfd buf f.nleft timeout).ask pc
  hear
    | .writev f, r =>
        if r.ret < 0 then
          refused r.errno timeout (.inl (.writev f)) (FramePc.ended f (.returned (-1)))
            (FramePc.ended f (.returned 0)) (.inl (.poll f))
        else if r.ret = f.nleft then FramePc.ended f (.returned (nbyte iov))
        else match f.copy (nbyte iov) alloc r.ret.toNat with
          | .inl f => .inl (.poll f)
          | .inr e => FramePc.ended f e
    | .poll f, r =>
        if r.ret < 0 then FramePc.ended f (.returned (-1))
        else FramePc.enter sockfd (nbyte iov) timeout f
    | .write f buf pc, r =>
        ((stWrite sockfd buf f.nleft timeout).hear pc r).map (.write f buf)
          fun e => (WritevPc.wrote (nbyte iov) f.nleft e, f)

def callersArray : FramePc ⊕ Exit × WritevFrame → List Iovec
  | .inl pc => pc.frame.arrays .iov
  | .inr (_, f) => f.arrays .iov

/-! ## The copy -/

namespace WritevFrame

/-- The copy of `l` is written, in an array of `room` elements that is not the caller's. -/
structure Copied (iov : List Iovec) (nleft room : Nat) (l : List Iovec) (f : WritevFrame) :
    Prop where
  caller : f.arrays .iov = iov
  own : f.tmp_iov ≠ .iov
  given : f.given = l
  count : f.iov_cnt = l.length
  capacity : (f.arrays f.tmp_iov).length = room
  left : f.nleft = nleft

variable {iov l : List Iovec} {nleft room : Nat} {f : WritevFrame}

theorem Copied.append (h : Copied iov nleft room l f) (hroom : l.length < room) (v : Iovec) :
    ∃ f', f.put f.iov_cnt v = some f' ∧
      Copied iov nleft room (l ++ [v]) { f' with iov_cnt := f'.iov_cnt + 1 } := by
  have hcount : f.iov_cnt < (f.arrays f.tmp_iov).length := by
    rw [h.count, h.capacity]
    exact hroom
  refine ⟨_, if_pos hcount, ?_⟩
  constructor
  case caller =>
    show Function.update f.arrays f.tmp_iov _ .iov = iov
    rw [Function.update_of_ne h.own.symm, h.caller]
  case own => exact h.own
  case given =>
    show (Function.update f.arrays f.tmp_iov _ f.tmp_iov).take (f.iov_cnt + 1) = l ++ [v]
    have hgiven := h.given
    rw [WritevFrame.given] at hgiven
    rw [Function.update_self, List.take_add_one, List.take_set_of_le le_rfl, hgiven,
      List.getElem?_set_self hcount]
    rfl
  case count =>
    show f.iov_cnt + 1 = _
    rw [h.count, List.length_append, List.length_singleton]
  case capacity =>
    show (Function.update f.arrays f.tmp_iov _ f.tmp_iov).length = room
    rw [Function.update_self, List.length_set, h.capacity]
  case left => exact h.left

theorem Copied.copyRest {rounds index : Nat} (h : Copied iov nleft room l f)
    (hrounds : index + rounds = iov.length) (hroom : l.length + rounds ≤ room) :
    ∃ f', copyRest rounds index f = some f' ∧
      Copied iov nleft room (l ++ iov.drop index) f' ∧ f'.tmp_iov = f.tmp_iov := by
  induction rounds generalizing index l f with
  | zero =>
      rw [List.drop_of_length_le (by omega), List.append_nil]
      exact ⟨f, rfl, h, rfl⟩
  | succ rounds ih =>
      have hindex : index < iov.length := by omega
      obtain ⟨f', hput, hcopied⟩ := h.append (by omega) iov[index]
      obtain ⟨f'', hrest, hdone, htmp⟩ := ih hcopied (show index + 1 + rounds = _ by omega)
        (by rw [List.length_append, List.length_singleton]; omega)
      refine ⟨f'', ?_, ?_, ?_⟩
      · rw [WritevFrame.copyRest, h.caller, List.getElem?_eq_getElem hindex]
        simp only [Option.bind_eq_bind, Option.bind_some, hput]
        exact hrest
      · rw [List.append_assoc, List.singleton_append, List.getElem_cons_drop] at hdone
        exact hdone
      · rw [htmp]
        unfold put at hput
        split at hput
        · cases hput
          rfl
        · cases hput

theorem search_of_locate {n k : Nat} {v : Iovec} {rest : List Iovec}
    (h : locate n iov = some (k, v :: rest)) (index : Nat) :
    ∃ front, iov = front ++ v :: rest ∧ search n index iov = some (k, index + front.length) := by
  induction iov generalizing n index with
  | nil => cases h
  | cons w iov ih =>
      rw [locate] at h
      split at h
      · rename_i hle
        obtain ⟨front, rfl, hsearch⟩ := ih h (index + 1)
        refine ⟨w :: front, rfl, ?_⟩
        rw [search, if_pos hle, hsearch, List.length_cons]
        congr 2
        omega
      · rename_i hle
        cases h
        exact ⟨[], rfl, by rw [search, if_neg hle]; rfl⟩

/-- The copy has room where the elements that are left have. -/
theorem fill_spec {n index : Nat} {v : Iovec} {front rest : List Iovec}
    (hcaller : f.arrays .iov = front ++ v :: rest) (hindex : index = front.length)
    (hown : f.tmp_iov ≠ .iov) (hroom : rest.length + 1 ≤ (f.arrays f.tmp_iov).length) :
    ∃ f', f.fill n index = some f' ∧
      Copied (f.arrays .iov) f.nleft (f.arrays f.tmp_iov).length (v.drop n :: rest) f' ∧
      f'.tmp_iov = f.tmp_iov := by
  subst hindex
  -- an empty copy, to which the first element is appended
  have hnone : Copied (f.arrays .iov) f.nleft (f.arrays f.tmp_iov).length []
      { f with iov_cnt := 0 } := by
    constructor
    case caller => rfl
    case own => exact hown
    case given => exact List.take_zero
    case count => rfl
    case capacity => rfl
    case left => rfl
  obtain ⟨f₁, hput, hone⟩ := hnone.append (by simp; omega) (v.drop n)
  have hpos : 0 < (f.arrays f.tmp_iov).length := by omega
  have hsize : f₁.iov_size = front.length + (rest.length + 1) := by
    have hsame : f₁.iov_size = (f.arrays .iov).length := congrArg List.length hone.caller
    rw [hsame, hcaller, List.length_append, List.length_cons]
  obtain ⟨f', hrest, hdone, htmp⟩ := hone.copyRest
    (show front.length + 1 + (f₁.iov_size - (front.length + 1)) = _ by
      rw [hsize, hcaller, List.length_append, List.length_cons]
      omega)
    (by rw [hsize, List.nil_append, List.length_singleton]; omega)
  obtain rfl := Option.some.inj (hput.symm.trans (if_pos hpos))
  refine ⟨f', ?_, ?_, htmp⟩
  · rw [fill, hcaller, List.getElem?_append_right le_rfl, Nat.sub_self]
    simp only [Option.bind_eq_bind, List.getElem?_cons_zero, Option.bind_some, put, if_pos hpos]
    exact hrest
  · rw [hcaller, List.drop_append, List.drop_of_length_le (by omega)] at hdone
    simpa [hcaller] using hdone

structure Refines (iov : List Iovec) (f : WritevFrame) (g : Gather) : Prop where
  caller : f.arrays .iov = iov
  given : f.given = g.tmp_iov
  count : f.iov_cnt = g.tmp_iov.length
  left : f.nleft = g.nleft
  first : f.tmp_iov = .iov → g.room = none ∧ (f.arrays .local_iov).length = LOCAL_MAXIOV
  room : f.tmp_iov ≠ .iov → g.room = some (f.arrays f.tmp_iov).length

theorem Copied.refines (h : Copied iov nleft room l f) :
    Refines iov f { tmp_iov := l, room := some room, nleft := nleft } where
  caller := h.caller
  given := h.given
  count := h.count
  left := h.left
  first hown := absurd hown h.own
  room _ := congrArg some h.capacity.symm

theorem make_refines (iov : List Iovec) (stack : Nat → Iovec) :
    Refines iov (make iov stack) { tmp_iov := iov, room := none, nleft := nbyte iov } where
  caller := rfl
  given := List.take_length
  count := rfl
  left := rfl
  first _ := ⟨rfl, by simp [make]⟩
  room hown := absurd rfl hown

theorem Refines.count_le {g : Gather} (h : Refines iov f g) :
    f.iov_cnt ≤ (f.arrays f.tmp_iov).length := by
  have hlen := congrArg List.length h.given
  rw [WritevFrame.given, List.length_take, ← h.count] at hlen
  omega

/-- The copy in the arrays is the copy of the list, or there is no memory for both. -/
theorem Refines.copy {g : Gather} (h : Refines iov f g) (hg : Gathered iov g)
    (hnbyte : nbyte iov = totalLen iov) (alloc : Bool) {n : Nat} (hn : n < g.nleft) :
    (∃ f' g', f.copy (nbyte iov) alloc n = .inl f' ∧
      WritevPc.copy iov (nbyte iov) alloc n g = .inl (.poll g') ∧ Refines iov f' g') ∨
    f.copy (nbyte iov) alloc n = .inr (.returned (-1)) ∧
      WritevPc.copy iov (nbyte iov) alloc n g = .inr (.returned (-1)) := by
  obtain ⟨k, v, rest, hlocate, hroom, -⟩ := hg.copy hn
  obtain ⟨front, hiov, hsearch⟩ := search_of_locate hlocate 0
  rw [Nat.zero_add] at hsearch
  have hsize : iov.length - front.length = rest.length + 1 := by
    rw [hiov, List.length_append, List.length_cons]
    omega
  have hfill : ∀ f₁ : WritevFrame, f₁.arrays .iov = iov → f₁.nleft = g.nleft - n →
      f₁.tmp_iov ≠ .iov → rest.length + 1 ≤ (f₁.arrays f₁.tmp_iov).length →
      ∃ f', f₁.fill k front.length = some f' ∧ Refines iov f' { tmp_iov := v.drop k :: rest
                                                                room := some (f₁.arrays f₁.tmp_iov).length
                                                                nleft := g.nleft - n } := by
    intro f₁ hcaller hleft hown hlen
    obtain ⟨f', hf', hcopied, -⟩ := fill_spec (n := k) (hcaller.trans hiov) rfl hown hlen
    rw [hcaller, hleft] at hcopied
    exact ⟨f', hf', hcopied.refines⟩
  simp only [WritevFrame.copy, WritevPc.copy, hnbyte, h.caller, h.left, hlocate, hsearch,
    iov_size, hsize]
  by_cases hown : f.tmp_iov = .iov
  · obtain ⟨hnone, hlocal⟩ := h.first hown
    rw [hnone, store, if_pos hown]
    by_cases hsmall : rest.length + 1 ≤ LOCAL_MAXIOV
    · obtain ⟨f', hf', hrefines⟩ := hfill { f with tmp_iov := .local_iov, nleft := g.nleft - n }
        h.caller rfl (by simp) (by rw [hlocal]; exact hsmall)
      rw [hlocal] at hrefines
      refine .inl ⟨f', _, ?_, if_pos hsmall, hrefines⟩
      simp only [if_pos hsmall, hf']
    · cases alloc with
      | false => exact .inr (by simp [hsmall])
      | true =>
          obtain ⟨f', hf', hrefines⟩ := hfill
            { f with
              arrays := Function.update f.arrays .heap (List.replicate (rest.length + 1) ⟨0, 0⟩)
              tmp_iov := .heap
              nleft := g.nleft - n }
            (by simp [h.caller]) rfl (by simp) (by simp)
          simp only [Function.update_self, List.length_replicate] at hrefines
          refine .inl ⟨f', _, ?_, by simp [hsmall], hrefines⟩
          simp only [if_neg hsmall, if_true, hf']
  · have hlen := hroom _ (h.room hown)
    obtain ⟨f', hf', hrefines⟩ := hfill { f with nleft := g.nleft - n } h.caller rfl hown hlen
    rw [h.room hown, store, if_neg hown]
    refine .inl ⟨f', _, ?_, rfl, hrefines⟩
    simp only [hf']

end WritevFrame

open WritevFrame (Refines)

/-! ## The call -/

def SideBySide (iov : List Iovec) : FramePc ⊕ Exit × WritevFrame → WritevPc ⊕ Exit → Prop
  | .inl (.writev f), .inl (.writev g) | .inl (.poll f), .inl (.poll g) => Refines iov f g
  | .inl (.write f buf pc), .inl (.write g buf' pc') => Refines iov f g ∧ buf = buf' ∧ pc = pc'
  | .inr (e, f), .inr e' => e = e' ∧ ∃ g, Refines iov f g
  | _, _ => False

section Writev

variable {fd timeout : Int} {iov : List Iovec} {stack : Nat → Iovec} {alloc : Bool}
  {f : WritevFrame} {g : Gather} {xs : List (Request × Reply)}

theorem sideBySide_enter (h : Refines iov f g) :
    SideBySide iov (FramePc.enter fd (nbyte iov) timeout f)
      (WritevPc.enter fd (nbyte iov) timeout g) := by
  have hgiven := h.given
  rw [WritevFrame.given, h.count] at hgiven
  unfold FramePc.enter WritevPc.enter
  rw [h.left, h.count]
  split
  · exact ⟨rfl, g, h⟩
  · rcases htmp : g.tmp_iov with _ | ⟨v, _ | ⟨w, rest⟩⟩
    · exact h
    · rw [htmp, List.length_singleton] at hgiven
      have hfirst : (f.arrays f.tmp_iov)[0]? = some v := by
        rw [← List.getElem?_take_of_lt Nat.zero_lt_one, hgiven]
        rfl
      simp only [List.length_singleton, if_true, hfirst]
      exact ⟨h, rfl, rfl⟩
    · exact h

theorem sideBySide_writev (hlong : totalLen iov < 2 ^ 31) {r : Reply} (h : Refines iov f g)
    (hg : Gathered iov g) (hle : r.ret ≤ totalLen g.tmp_iov) :
    SideBySide iov ((stWritevArrays fd iov stack alloc timeout).hear (.writev f) r)
      ((stWritev fd iov alloc timeout).hear (.writev g) r) := by
  have hnbyte : nbyte iov = totalLen iov := Nat.mod_eq_of_lt (by omega)
  have htotal := hg.totalLen_tmp_iov
  simp only [stWritevArrays, stWritev, h.left]
  split
  · unfold refused
    split_ifs
    · exact h
    · exact ⟨rfl, g, h⟩
    · exact ⟨rfl, g, h⟩
    · exact h
  · split
    · exact ⟨rfl, g, h⟩
    · rcases h.copy hg hnbyte alloc (n := r.ret.toNat) (by omega) with
        ⟨f', g', hf', hg', hrefines⟩ | ⟨hf', hg'⟩
      · rw [hf', hg']
        exact hrefines
      · rw [hf', hg']
        exact ⟨rfl, g, h⟩

theorem sideBySide_hear (hlong : totalLen iov < 2 ^ 31) {s : FramePc} {t : WritevPc} {r : Reply}
    (h : SideBySide iov (.inl s) (.inl t)) (hat : WritevAt iov xs (.inl t))
    (hfit : ((stWritev fd iov alloc timeout).ask t).Moves r) :
    SideBySide iov ((stWritevArrays fd iov stack alloc timeout).hear s r)
      ((stWritev fd iov alloc timeout).hear t r) := by
  cases s with
  | writev f =>
      cases t with
      | writev g => exact sideBySide_writev hlong h hat.1 (hfit _ rfl)
      | poll | write => exact h.elim
  | poll f =>
      cases t with
      | poll g =>
          simp only [stWritevArrays, stWritev]
          split
          · exact ⟨rfl, g, h⟩
          · exact sideBySide_enter h
      | writev | write => exact h.elim
  | write f buf pc =>
      cases t with
      | write g buf' pc' =>
          obtain ⟨h, rfl, rfl⟩ := h
          simp only [stWritevArrays, stWritev, h.left]
          cases (stWrite fd buf g.nleft timeout).hear pc r with
          | inl pc' => exact ⟨h, rfl, rfl⟩
          | inr e => exact ⟨rfl, g, h⟩
      | writev | poll => exact h.elim

theorem sideBySide_ask {s : FramePc} {q : WritevPc ⊕ Exit} (h : SideBySide iov (.inl s) q) :
    ∃ t, q = .inl t ∧
      (stWritevArrays fd iov stack alloc timeout).ask s = (stWritev fd iov alloc timeout).ask t := by
  cases q with
  | inr e => cases s <;> exact h.elim
  | inl t =>
      refine ⟨t, rfl, ?_⟩
      cases s with
      | writev f =>
          cases t with
          | writev g => exact congrArg (Request.writev fd) h.given
          | poll | write => exact h.elim
      | poll f =>
          cases t with
          | poll g => rfl
          | writev | write => exact h.elim
      | write f buf pc =>
          cases t with
          | write g buf' pc' =>
              obtain ⟨h, rfl, rfl⟩ := h
              simp only [stWritevArrays, stWritev, h.left]
          | writev | poll => exact h.elim

theorem stWritevArrays_refines (hlong : totalLen iov < 2 ^ 31) {rs : List Reply}
    (hfits : (stWritevArrays fd iov stack alloc timeout).Fits Request.Moves
      (stWritevArrays fd iov stack alloc timeout).start rs) :
    let call := stWritevArrays fd iov stack alloc timeout
    let listCall := stWritev fd iov alloc timeout
    call.exchanges call.start rs = listCall.exchanges listCall.start rs ∧
      SideBySide iov (call.after call.start rs) (listCall.after listCall.start rs) ∧
      WritevAt iov (call.exchanges call.start rs) (listCall.after listCall.start rs) := by
  have hstart : SideBySide iov (stWritevArrays fd iov stack alloc timeout).start
      (stWritev fd iov alloc timeout).start ∧
        WritevAt iov [] (stWritev fd iov alloc timeout).start :=
    ⟨sideBySide_enter (WritevFrame.make_refines iov stack), writevAt_start hlong⟩
  refine Client.exchanges_eq_of_sim (R := fun p q xs => SideBySide iov p q ∧ WritevAt iov xs q)
    hfits hstart ?_ ?_ ?_
  · intro s q xs h
    exact sideBySide_ask h.1
  · rintro ⟨e, f⟩ q xs ⟨h, -⟩
    cases q with
    | inl t => cases t <;> exact h.elim
    | inr e' => rfl
  · rintro s t r xs ⟨h, hat⟩ hfit
    obtain ⟨t', ht', hask⟩ : ∃ t', Sum.inl t = .inl t' ∧
        (stWritevArrays fd iov stack alloc timeout).ask s =
          (stWritev fd iov alloc timeout).ask t' := sideBySide_ask h
    cases ht'
    rw [hask] at hfit ⊢
    exact ⟨sideBySide_hear hlong h hat hfit, writevAt_hear hlong hat hfit⟩

end Writev

/-- What `st_writev` promises at the place `p` after the exchanges `xs`. -/
structure SendsVector (iov : List Iovec) (p : FramePc ⊕ Exit × WritevFrame)
    (xs : List (Request × Reply)) : Prop where
  isPrefix : transferred xs <+: bytes iov
  unmodified : callersArray p = iov
  /-- no index is behind the end of an array -/
  inside : ∀ f, p ≠ .inr (.overrun, f)
  given : ∀ pc, p = .inl pc → pc.frame.iov_cnt ≤ (pc.frame.arrays pc.frame.tmp_iov).length
  complete : ∀ ret f, p = .inr (.returned ret, f) → totalLen iov ≠ 0 →
    (ret = totalLen iov ↔ transferred xs = bytes iov)

theorem WritevAt.isPrefix {iov : List Iovec} {xs : List (Request × Reply)} {q : WritevPc ⊕ Exit}
    (h : WritevAt iov xs q) : transferred xs <+: bytes iov := by
  rcases q with (g | g | ⟨g, buf, pc⟩) | e
  · exact ⟨_, h.2⟩
  · exact ⟨_, h.2⟩
  · exact ⟨_, h.2.1.split⟩
  · exact h.1

theorem SideBySide.refines {iov : List Iovec} {pc : FramePc} {q : WritevPc ⊕ Exit}
    (h : SideBySide iov (.inl pc) q) : ∃ g, Refines iov pc.frame g := by
  cases pc with
  | writev f | poll f =>
      rcases q with (g | g | ⟨g, buf, pc⟩) | e
      all_goals first | exact ⟨g, h⟩ | exact h.elim
  | write f buf pc =>
      rcases q with (g | g | ⟨g, buf', pc'⟩) | e
      all_goals first | exact ⟨g, h.1⟩ | exact h.elim

/-- `st_writev` sends a prefix of the buffers, stays inside its arrays, and returns the total
exactly when everything is sent. -/
theorem stWritevArrays_sendsVector {fd timeout : Int} {iov : List Iovec} {stack : Nat → Iovec}
    {alloc : Bool} {rs : List Reply} (hlong : totalLen iov < 2 ^ 31)
    (hfits : (stWritevArrays fd iov stack alloc timeout).Fits Request.Moves
      (stWritevArrays fd iov stack alloc timeout).start rs) :
    let call := stWritevArrays fd iov stack alloc timeout
    SendsVector iov (call.after call.start rs) (call.exchanges call.start rs) := by
  intro call
  obtain ⟨-, hside, hat⟩ := stWritevArrays_refines hlong hfits
  have hinit := hat.isPrefix
  show SendsVector iov ((stWritevArrays fd iov stack alloc timeout).after _ rs) _
  revert hside hat
  generalize (stWritevArrays fd iov stack alloc timeout).after
    (stWritevArrays fd iov stack alloc timeout).start rs = p
  generalize (stWritev fd iov alloc timeout).after (stWritev fd iov alloc timeout).start rs = q
  intro hside hat
  cases p with
  | inl pc =>
      obtain ⟨g, hg⟩ := hside.refines
      refine ⟨hinit, hg.caller, by simp, ?_, by simp⟩
      rintro pc' heq
      cases heq
      exact hg.count_le
  | inr res =>
      obtain ⟨e, f⟩ := res
      cases q with
      | inl t => exact hside.elim
      | inr e' =>
          obtain ⟨rfl, g, hg⟩ := hside
          refine ⟨hinit, hg.caller, ?_, by simp, ?_⟩
          · intro f' heq
            cases heq
            exact hat.2.1 rfl
          · intro ret f' heq hne
            cases heq
            exact hat.2.2 ret rfl hne

/-- Two rounds through `local_iov`, and the last element through `st_write`. -/
theorem stWritevArrays_sendsVector_three :
    let call := stWritevArrays 5 [⟨100, 2⟩, ⟨200, 0⟩, ⟨300, 4⟩] (fun _ => ⟨0, 0⟩) true (-1)
    let rs : List Reply := [⟨1, 0, 0⟩, ⟨0, 0, 0⟩, ⟨1, 0, 0⟩, ⟨0, 0, 0⟩, ⟨4, 0, 0⟩]
    SendsVector [⟨100, 2⟩, ⟨200, 0⟩, ⟨300, 4⟩] (call.after call.start rs)
      (call.exchanges call.start rs) :=
  stWritevArrays_sendsVector (by decide) (by decide)

end CppGo.Netio
